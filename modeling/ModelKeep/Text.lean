import ModelKeep.Archive

/-!
# Untrusted text in one line

Text that the archive did not choose is reduced to a single printable line
before it is kept or shown.
-/

namespace ModelKeep

/-- `char::is_control` -/
def isControlCharacter (character : Char) : Bool :=
  character.toNat < 32 ||
    (127 ≤ character.toNat && character.toNat < 160)

/-- `str::split_whitespace` -/
def splitWhitespace (text : List Char) : List (List Char) :=
  (text.splitOnP Archive.isWhitespace).filter fun word => word ≠ []

/-- What cannot be printed becomes blank. -/
def printable (text : List Char) : List Char :=
  text.map fun character =>
    if isControlCharacter character then ' ' else character

/-- The words of a text, one blank apart. -/
def singleLine (value : String) : List Char :=
  [' '].intercalate (splitWhitespace (printable value.toList))

end ModelKeep
