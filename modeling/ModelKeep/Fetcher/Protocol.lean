import Mathlib.Data.List.Chain
import ModelKeep.Fetcher.Binding
import ModelKeep.Fetcher.Script
import ModelKeep.Json.Alike

/-!
# What the parent reads of the helper

The script and its parent are two programs with one protocol.  Every event
that the script says is one that the parent accepts, and the text of a failure
comes through as it was cleaned.
-/

namespace ModelKeep
namespace Fetcher

open Concurrency Program Redaction Script
open FileSystem (UpstreamFile)
open Staging (World Effect)

/-! ## Texts on one line -/

/-- What the interpreter prints are characters that can be seen, and no white
space but the blank. -/
structure Legible (python : Interpreter) : Prop where
  scalar : ∀ c, python.printable c = true → c.isValidChar
  visible : ∀ c, python.printable c = true →
    isControlCharacter (Char.ofNat c) = false
  blank : ∀ c, python.printable c = true →
    Archive.isWhitespace (Char.ofNat c) = true → c = 32

/-- A printable text with its words one blank apart. -/
structure Spaced (python : Interpreter) (text : Text) : Prop where
  printable : ∀ c ∈ text, python.printable c = true
  first : text.head? ≠ some 32
  last : text.getLast? ≠ some 32
  apart : text.IsChain fun left right => ¬(left = 32 ∧ right = 32)

section texts

variable {python : Interpreter} {text : Text}

theorem mem_words
    {word : Text}
    (member : word ∈ words text) :
    word ≠ [] ∧ ∀ c ∈ word, c ∈ text ∧ isSpace c = false := by
  induction text generalizing word with
  | nil => cases member
  | cons c rest inductionHypothesis =>
      unfold words at member
      have onward : ∀ other ∈ words rest, other ≠ [] ∧
          ∀ d ∈ other, d ∈ c :: rest ∧ isSpace d = false := by
        intro other inside
        obtain ⟨some, each⟩ := inductionHypothesis inside
        exact ⟨some, fun d inWord =>
          ⟨List.mem_cons_of_mem c (each d inWord).1, (each d inWord).2⟩⟩
      split at member
      · exact onward word member
      · next visible =>
          have here : c ∈ c :: rest ∧ isSpace c = false :=
            ⟨List.mem_cons_self, eq_false_of_ne_true visible⟩
          split at member
          · rcases List.mem_cons.mp member with rfl | later
            · refine ⟨List.cons_ne_nil _ _, fun d inWord => ?_⟩
              rw [List.mem_singleton.mp inWord]
              exact here
            · exact onward word later
          · split at member
            · next first later split =>
                rcases List.mem_cons.mp member with rfl | inLater
                · refine ⟨List.cons_ne_nil _ _, fun d inWord => ?_⟩
                  rcases List.mem_cons.mp inWord with rfl | inFirst
                  · exact here
                  · exact (onward first
                      (split ▸ List.mem_cons_self)).2 d inFirst
                · exact onward word (split ▸ List.mem_cons_of_mem _ inLater)
            · rw [List.mem_singleton.mp member]
              refine ⟨List.cons_ne_nil _ _, fun d inWord => ?_⟩
              rw [List.mem_singleton.mp inWord]
              exact here

theorem blank_isSpace : isSpace 32 = true := by decide

theorem printable_blank : python.printable 32 = true := by
  rw [python.printable_ascii 32 (by decide)]
  decide

theorem spaced_nil : Spaced python [] where
  printable := nofun
  first := nofun
  last := nofun
  apart := .nil

/-- A word. -/
theorem spaced_word
    {word : Text}
    (each : ∀ c ∈ word, python.printable c = true ∧ c ≠ 32) :
    Spaced python word where
  printable c inWord := (each c inWord).1
  first begins := (each 32 (List.mem_of_head? begins)).2 rfl
  last ends := (each 32 (List.mem_of_getLast? ends)).2 rfl
  apart := by
    rw [List.isChain_iff_getElem]
    intro index bound both
    exact (each _ (List.getElem_mem _)).2 both.1

/-- Two texts with a blank between them. -/
theorem Spaced.join
    {left right : Text}
    (spaced : Spaced python left)
    (onward : Spaced python right)
    (some : left ≠ [])
    (more : right ≠ []) :
    Spaced python (left ++ (32 :: right)) where
  printable c member := by
    rcases List.mem_append.mp member with inLeft | inRight
    · exact spaced.printable c inLeft
    · rcases List.mem_cons.mp inRight with rfl | inRight
      · exact printable_blank
      · exact onward.printable c inRight
  first := by
    rw [List.head?_append_of_ne_nil _ some]
    exact spaced.first
  last := by
    rw [List.getLast?_append_of_ne_nil _ (List.cons_ne_nil _ _),
      List.getLast?_cons_of_ne_nil more]
    exact onward.last
  apart := by
    rw [List.isChain_append]
    refine ⟨spaced.apart, ?_, ?_⟩
    · rw [List.isChain_cons]
      refine ⟨?_, onward.apart⟩
      rintro c begins ⟨_, rfl⟩
      exact onward.first begins
    · rintro c ends _ _ ⟨rfl, _⟩
      exact spaced.last ends

/-- Words one blank apart. -/
theorem spaced_intercalate
    {pieces : List Text}
    (each : ∀ word ∈ pieces, word ≠ [] ∧ ∀ c ∈ word,
      python.printable c = true ∧ c ≠ 32) :
    Spaced python ((points " ").intercalate pieces) ∧
      (pieces ≠ [] → (points " ").intercalate pieces ≠ []) := by
  induction pieces with
  | nil => exact ⟨spaced_nil, absurd rfl⟩
  | cons word rest inductionHypothesis =>
      obtain ⟨some, visible⟩ := each word List.mem_cons_self
      obtain ⟨spaced, more⟩ := inductionHypothesis fun other member =>
        each other (List.mem_cons_of_mem word member)
      cases rest with
      | nil =>
          rw [List.intercalate_singleton]
          exact ⟨spaced_word visible, fun _ => some⟩
      | cons second later =>
          rw [List.intercalate_cons_cons, List.append_assoc]
          refine ⟨(spaced_word visible).join spaced some
            (more (List.cons_ne_nil _ _)), fun _ => ?_⟩
          exact List.append_ne_nil_of_left_ne_nil some _

theorem spaced_cleaned : Spaced python (cleaned python text) := by
  unfold cleaned
  refine (spaced_intercalate fun word member => ?_).1
  obtain ⟨some, each⟩ := mem_words member
  refine ⟨some, fun c inWord => ?_⟩
  obtain ⟨inText, visible⟩ := each c inWord
  obtain ⟨d, _, rfl⟩ := List.mem_map.mp inText
  split at visible
  · next printable =>
      rw [if_pos printable]
      refine ⟨printable, ?_⟩
      rintro rfl
      exact absurd visible (by decide)
  · exact absurd visible (by decide)

theorem spaced_truncationMarker : Spaced python truncationMarker where
  printable c member := by
    have ascii : c < 128 ∧ (0x20 ≤ c && c ≤ 0x7e) = true := by
      revert c
      decide
    rw [python.printable_ascii c ascii.1]
    exact ascii.2
  first := by decide
  last := by decide
  apart := by decide

/-- The start of a text, where it does not end with a blank. -/
theorem Spaced.left
    {start rest : Text}
    (spaced : Spaced python (start ++ rest))
    (last : start.getLast? ≠ some 32) :
    Spaced python start where
  printable c member := spaced.printable c (List.mem_append_left _ member)
  first := by
    intro blank
    cases start with
    | nil => cases blank
    | cons c others => exact spaced.first blank
  last := last
  apart := (List.isChain_append.mp spaced.apart).1

theorem Spaced.truncate
    {limit : Nat}
    (spaced : Spaced python text) :
    Spaced python
      ((text.take limit).rdropWhile isSpace ++ truncationMarker) := by
  have ends : ((text.take limit).rdropWhile isSpace).getLast? ≠ some 32 := by
    intro blank
    have some := List.ne_nil_of_mem (List.mem_of_getLast? blank)
    have visible := List.rdropWhile_last_not isSpace _ some
    rw [List.getLast?_eq_some_getLast some] at blank
    rw [Option.some.inj blank] at visible
    exact visible blank_isSpace
  have start : Spaced python ((text.take limit).rdropWhile isSpace) := by
    have whole : (text.take limit).rdropWhile isSpace ++
        ((text.take limit).rtakeWhile isSpace ++ text.drop limit) = text := by
      rw [← List.append_assoc, List.rdropWhile_append_rtakeWhile,
        List.take_append_drop]
    rw [← whole] at spaced
    exact spaced.left ends
  refine ⟨?_, ?_, ?_, ?_⟩
  · intro c member
    rcases List.mem_append.mp member with inStart | inMarker
    · exact start.printable c inStart
    · exact spaced_truncationMarker.printable c inMarker
  · rw [List.head?_append]
    cases begins : ((text.take limit).rdropWhile isSpace).head? with
    | none => exact (@spaced_truncationMarker python).first
    | some c =>
        rw [Option.some_or, ← begins]
        exact start.first
  · rw [List.getLast?_append_of_ne_nil _ (by decide)]
    exact (@spaced_truncationMarker python).last
  · rw [List.isChain_append]
    refine ⟨start.apart, (@spaced_truncationMarker python).apart, ?_⟩
    rintro c last _ _ ⟨rfl, _⟩
    exact ends last

theorem spaced_sanitizedText
    {limit : Nat} :
    Spaced python (sanitizedText python limit text) := by
  unfold sanitizedText
  dsimp only
  split
  · exact spaced_cleaned.truncate
  · exact spaced_cleaned

/-! ## Texts in the parent -/

theorem ofNat_eq_blank
    (legible : Legible python)
    {c : Nat}
    (printable : python.printable c = true) :
    Archive.isWhitespace (Char.ofNat c) = true ↔ c = 32 := by
  constructor
  · exact legible.blank c printable
  · rintro rfl
    decide

/-- The pieces of a text between its white space. -/
theorem splitOnP_written
    (legible : Legible python)
    (printable : ∀ c ∈ text, python.printable c = true)
    (last : text.getLast? ≠ some 32)
    (apart : text.IsChain fun left right => ¬(left = 32 ∧ right = 32)) :
    ∃ first rest,
      (text.map Char.ofNat).splitOnP Archive.isWhitespace = first :: rest ∧
        (∀ piece ∈ rest, piece ≠ []) ∧
        (first = [] → text = [] ∨ text.head? = some 32) ∧
        [' '].intercalate (first :: rest) = text.map Char.ofNat := by
  induction text with
  | nil => exact ⟨[], [], rfl, nofun, fun _ => Or.inl rfl, rfl⟩
  | cons c others inductionHypothesis =>
      obtain ⟨follows, apartLater⟩ := List.isChain_cons.mp apart
      have lastLater : others.getLast? ≠ some 32 := by
        intro blank
        have some : others ≠ [] :=
          List.ne_nil_of_mem (List.mem_of_getLast? blank)
        rw [List.getLast?_cons_of_ne_nil some] at last
        exact last blank
      obtain ⟨first, rest, split, pieces, begins, joined⟩ :=
        inductionHypothesis
          (fun d member => printable d (List.mem_cons_of_mem c member))
          lastLater apartLater
      have visible := ofNat_eq_blank legible
        (printable c List.mem_cons_self)
      rw [List.map_cons, List.splitOnP_cons_eq_if_modifyHead, split]
      by_cases blank : c = 32
      · rw [if_pos (visible.mpr blank)]
        refine ⟨[], first :: rest, rfl, ?_, fun _ => Or.inr ?_, ?_⟩
        · intro piece member
          rcases List.mem_cons.mp member with rfl | later
          · intro nothing
            rcases begins nothing with rfl | head
            · rw [blank] at last
              exact last rfl
            · exact follows 32 head ⟨blank, rfl⟩
          · exact pieces piece later
        · rw [blank]
          rfl
        · rw [List.intercalate_cons_cons, joined, blank]
          rfl
      · rw [if_neg fun white => blank (visible.mp white)]
        refine ⟨Char.ofNat c :: first, rest, rfl, pieces, nofun, ?_⟩
        rw [List.intercalate_cons_cons_left, joined]

/-- A text that is spaced is kept as it is. -/
theorem singleLine_written
    (legible : Legible python)
    (spaced : Spaced python text) :
    singleLine (written text) = text.map Char.ofNat := by
  have visible : printable (text.map Char.ofNat) = text.map Char.ofNat := by
    unfold printable
    rw [List.map_map]
    refine List.map_congr_left fun c member => ?_
    show (if isControlCharacter (Char.ofNat c) = true then _ else _) = _
    rw [legible.visible c (spaced.printable c member), if_neg (by decide)]
  unfold singleLine splitWhitespace written
  rw [String.toList_ofList, visible]
  obtain ⟨first, rest, split, pieces, begins, joined⟩ :=
    splitOnP_written legible spaced.printable spaced.last spaced.apart
  rw [split]
  by_cases nothing : first = []
  · rcases begins nothing with rfl | head
    · cases rest with
      | nil =>
          rw [nothing]
          rfl
      | cons piece later =>
          rw [nothing, List.intercalate_cons_cons] at joined
          cases joined
    · exact absurd head spaced.first
  · rw [List.filter_eq_self.mpr, joined]
    intro piece member
    rcases List.mem_cons.mp member with rfl | later
    · exact decide_eq_true nothing
    · exact decide_eq_true (pieces piece later)

theorem spaced_failureMessage
    {chain : List Link} :
    Spaced python (failureMessage python chain) :=
  spaced_sanitizedText

/-- What the parent keeps of a text. -/
def kept (text : Text) : Option String :=
  if text = [] then none else some (written (text.take 400))

theorem boundedDetail_written
    (legible : Legible python)
    (spaced : Spaced python text) :
    boundedDetail (written text) = kept text := by
  unfold boundedDetail kept written
  rw [show String.ofList (text.map Char.ofNat) = written text from rfl,
    singleLine_written legible spaced, ← List.map_take]
  cases text with
  | nil => rfl
  | cons c rest => rfl

end texts

/-! ## Lines in the parent -/

section lines

variable (python : Interpreter)

/-- What a failure that is raised becomes in the parent. -/
def told (raised : Raised) : HelperFailure :=
  ⟨failureClass raised.kind,
    kept (sanitizedText python exceptionNameLimit raised.error.name),
    kept (failureMessage python (raised.error :: raised.causes))⟩

/-- What a line becomes in the parent. -/
def eventOf : Said → Event
  | .progress event =>
      .progress ⟨1, event.phase, event.unit, event.completed, event.total⟩
  | .resolved commit => .resolved commit
  | .snapshot result => .result
      ⟨some "result", result.commit, result.files, result.repositoryFiles⟩
  | .listing result => .result
      ⟨some "result", result.commit, result.files, result.repositoryFiles⟩
  | .failure raised => .failure (told python raised)

variable {python}

/-- A list that is decoded element by element. -/
theorem mapM_encode
    {α : Type}
    {encode : α → Json}
    {decode : Json → Option α}
    (decodes : ∀ value, decode (encode value) = some value)
    (values : List α) :
    Json.asList decode (.array (values.map encode)) = some values := by
  show (values.map encode).mapM decode = some values
  induction values with
  | nil => rfl
  | cons value rest inductionHypothesis =>
      rw [List.map_cons, List.mapM_cons, decodes, inductionHypothesis]
      rfl

theorem decodeUpstreamFile_upstreamEntryJson (file : UpstreamFile) :
    decodeUpstreamFile (upstreamEntryJson file) = some file := by
  obtain ⟨path, size, blobId, lfsSha256⟩ := file
  cases size <;> cases blobId <;> cases lfsSha256 <;> rfl

theorem decodeHelperOutput_of_members
    {value : Json}
    {commit : String}
    {files : List String}
    {repository : List UpstreamFile}
    (typed : value.get? "type" = some (.text "result"))
    (named : value.get? "commit" = some (.text commit))
    (listed : value.get? "files" = some (.array (files.map .text)))
    (recorded : value.get? "repository_files" =
      some (.array (repository.map upstreamEntryJson))) :
    decodeHelperOutput value =
      some ⟨some "result", commit, files, repository⟩ := by
  have decodedFiles : Json.asList Json.asText (.array (files.map .text)) =
      some files :=
    @mapM_encode _ .text Json.asText (fun _ => rfl) files
  unfold decodeHelperOutput
  rw [typed, named, listed, recorded]
  simp only [Json.optional, Json.required, Json.orDefault, Json.asText,
    Option.map_some, Option.bind_eq_bind, Option.bind_some, decodedFiles,
    mapM_encode decodeUpstreamFile_upstreamEntryJson]
  rfl

theorem parseClass_className (failureClass : HelperFailureClass) :
    parseClass (className failureClass) = some failureClass := by
  cases failureClass <;> decide

theorem readEvent_of_result
    {value : Json}
    {output : HelperOutput}
    (typed : value.get? "type" = some (.text "result"))
    (decoded : decodeHelperOutput value = some output) :
    readEvent value = .ok (.result output) := by
  unfold readEvent
  rw [typed, decoded]
  rfl

theorem readEvent_of_failure
    {value : Json}
    {failure : HelperFailure}
    (typed : value.get? "type" = some (.text "failure"))
    (parsed : parseFailureEvent value = some failure) :
    readEvent value = .ok (.failure failure) := by
  unfold readEvent
  rw [typed, parsed]
  rfl

/-- The version of every event. -/
theorem version_one :
    Json.orDefault 0 (Json.asBounded (2 ^ 32)) (some (.natural 1)) =
      some 1 := by
  simp [Json.orDefault, Json.asBounded, Json.asNatural]

theorem decodeProgress_json (event : Progress) :
    decodeProgress (Said.json python (.progress event)) =
      some ⟨1, event.phase, event.unit, event.completed, event.total⟩ := by
  obtain ⟨phase, unit, completed, total⟩ := event
  unfold decodeProgress
  rw [show (Said.json python (.progress ⟨phase, unit, completed,
    total⟩)).get? "version" = some (.natural 1) from rfl, version_one]
  cases unit <;> cases completed <;> cases total <;> rfl

theorem message_failureEvent
    {kind : ErrorKind}
    {error : Link}
    {causes : List Link} :
    (failureEvent python kind error causes).message =
      failureMessage python (error :: causes) := by
  dsimp only [failureEvent]

theorem parseFailureEvent_json
    (legible : Legible python)
    {raised : Raised} :
    parseFailureEvent (Said.json python (.failure raised)) =
      some (told python raised) := by
  have named : (Said.json python (.failure raised)).get? "class" =
      some (.text (className (failureClass raised.kind))) := rfl
  have excepted : (Said.json python (.failure raised)).get? "exception" =
      some (.text (written (sanitizedText python exceptionNameLimit
        raised.error.name))) := rfl
  have worded : (Said.json python (.failure raised)).get? "message" =
      some (.text (written (failureMessage python
        (raised.error :: raised.causes)))) := by
    rw [← message_failureEvent]
    rfl
  have versioned : (Said.json python (.failure raised)).get? "version" =
      some (.natural 1) := rfl
  unfold parseFailureEvent
  rw [named, excepted, worded, versioned, version_one]
  simp only [Json.optional, Json.required, Json.asText, Option.map_some,
    Option.bind_eq_bind, Option.bind_some, parseClass_className, reported,
    boundedDetail_written legible spaced_sanitizedText,
    boundedDetail_written legible spaced_failureMessage]
  exact if_neg (lt_irrefl 1)

/-- The parent accepts every line, and takes it as it was meant. -/
theorem readEvent_json
    (legible : Legible python)
    {said : Said}
    (proper : ∀ commit ∈ said.resolved?, isHfCommit commit = true) :
    readEvent (said.json python) = .ok (eventOf python said) := by
  cases said with
  | progress event =>
      unfold readEvent
      rw [decodeProgress_json event,
        show (Said.json python (.progress event)).get? "type" =
          some (.text "progress") from rfl]
      rfl
  | resolved commit =>
      have accepted : isHfCommit commit = true := proper commit rfl
      unfold readEvent
      rw [show (Said.json python (.resolved commit)).get? "type" =
          some (.text "resolved") from rfl,
        show (Said.json python (.resolved commit)).get? "commit" =
          some (.text commit) from rfl]
      simp only [Option.bind_some, Json.asText, accepted, if_true]
      rfl
  | snapshot result =>
      exact readEvent_of_result rfl
        (decodeHelperOutput_of_members rfl rfl rfl rfl)
  | listing result =>
      exact readEvent_of_result rfl
        (decodeHelperOutput_of_members rfl rfl rfl rfl)
  | failure raised =>
      exact readEvent_of_failure rfl (parseFailureEvent_json legible)

theorem respects_decodeUpstreamFile : Json.Respects decodeUpstreamFile := by
  have fields : ∀ first second third fourth first' second' third' fourth',
      Option.Rel Json.Alike first first' →
      Option.Rel Json.Alike second second' →
      Option.Rel Json.Alike third third' →
      Option.Rel Json.Alike fourth fourth' →
      decodeUpstreamFields first second third fourth =
        decodeUpstreamFields first' second' third' fourth' := by
    intro _ _ _ _ _ _ _ _ path size blobId lfsSha256
    unfold decodeUpstreamFields
    rw [Json.respects_asText.required path,
      Json.respects_asNatural.optional size,
      Json.respects_asText.optional blobId,
      Json.respects_asText.optional lfsSha256]
  intro left right alike
  cases alike with
  | refl => rfl
  | array elements =>
      dsimp only [decodeUpstreamFile]
      rw [elements.length_eq]
      refine if_congr Iff.rfl rfl ?_
      exact fields _ _ _ _ _ _ _ _ (Json.rel_getElem? elements 0)
        (Json.rel_getElem? elements 1) (Json.rel_getElem? elements 2)
        (Json.rel_getElem? elements 3)
  | object members =>
      exact fields _ _ _ _ _ _ _ _ (members _) (members _) (members _)
        (members _)

/-- The order of the members of an event does not matter. -/
theorem readEvent_of_alike
    {value other : Json}
    (alike : value.Alike other) :
    readEvent value = readEvent other := by
  have failure : parseFailureEvent value = parseFailureEvent other := by
    unfold parseFailureEvent
    rw [Json.respects_asBounded.orDefault 0 (alike.get? _),
      Json.respects_asText.required (alike.get? _),
      Json.respects_asText.optional (alike.get? _),
      Json.respects_asText.optional (alike.get? _)]
  have progress : decodeProgress value = decodeProgress other := by
    unfold decodeProgress
    rw [Json.respects_asBounded.orDefault 0 (alike.get? _),
      Json.respects_asText.required (alike.get? _),
      Json.respects_asText.optional (alike.get? _),
      Json.respects_asNatural.optional (alike.get? "completed"),
      Json.respects_asNatural.optional (alike.get? "total")]
  have result : decodeHelperOutput value = decodeHelperOutput other := by
    unfold decodeHelperOutput
    rw [Json.respects_asText.optional (alike.get? _),
      Json.respects_asText.required (alike.get? _),
      Json.respects_asText.asList.required (alike.get? _),
      respects_decodeUpstreamFile.asList.orDefault [] (alike.get? _)]
  unfold readEvent
  rw [Json.respects_asText.bind (alike.get? "type"),
    Json.respects_asText.bind (alike.get? "commit"), failure, progress,
    result]

end lines

end Fetcher
end ModelKeep
