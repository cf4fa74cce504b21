import HolderCore.Card.Types

/-! # Tags

The tag syntax of `card/TagExtractor.cpp` and the edits of a body's trailing tag line in
`card/TagLineEditor.cpp`. The extraction of tags from Markdown is a parameter of a run. -/

namespace HolderCore

def looksLikeHexColor (candidate : String) : Bool :=
  [3, 4, 6, 8].contains candidate.length && candidate.toList.all isHexDigit

def isValidTag (tag : String) : Bool :=
  match tag.toList with
  | [] => false
  | first :: rest =>
    first.isAlpha &&
      (first :: rest).all (fun c => c.isAlphanum || c == '_' || c == '/' || c == '-') &&
      !looksLikeHexColor tag

def normalizeTag (tag : String) : String := tag.toLower

/-! ## The trailing tag line -/

def isLineWhitespace (c : Char) : Bool := c == ' ' || c == '\t' || c == '\r'

/-- The text up to the last character that is no white space, and the white space after it. -/
def splitTrailingWhitespace (body : List Char) : List Char × List Char :=
  let trailing := body.reverse.takeWhile fun c => c == '\n' || isLineWhitespace c
  (body.take (body.length - trailing.length), trailing.reverse)

/-- The lines before the last one with their newlines, and the last line. -/
def splitLastLine (content : List Char) : List Char × List Char :=
  let last := content.reverse.takeWhile (· != '\n')
  (content.take (content.length - last.length), last.reverse)

/-- White-space separated tags and nothing else; every turn reads a character. -/
def parseTagTokens : (fuel : Nat) → List Char → Option (List String)
  | 0, _ => some []
  | fuel + 1, line =>
    match line.dropWhile isLineWhitespace with
    | [] => some []
    | '#' :: rest =>
      let candidate := String.ofList (rest.takeWhile fun c => !isLineWhitespace c)
      if isValidTag candidate then
        (parseTagTokens fuel (rest.dropWhile fun c => !isLineWhitespace c)).map
          (normalizeTag candidate :: ·)
      else none
    | _ => none

def parsePureTagLine (line : List Char) : Option (List String) :=
  (parseTagTokens (line.length + 1) line).filter fun tags => !tags.isEmpty

def joinTagLine (tags : List String) : List Char :=
  (" ".intercalate (tags.map ("#" ++ ·))).toList

def upsertTrailingTagLine (body tag : String) : String :=
  let (content, trailing) := splitTrailingWhitespace body.toList
  if content.isEmpty then "#" ++ tag else
  let (before, lastLine) := splitLastLine content
  match parsePureTagLine lastLine with
  | some existing =>
    if existing.contains tag then body
    else String.ofList (before ++ joinTagLine (existing ++ [tag]) ++ trailing)
  | none => String.ofList (content ++ "\n\n#".toList ++ tag.toList ++ trailing)

/-- The body without the tag, if the tag stands on the trailing line. -/
def removeFromTrailingTagLine (body tag : String) : Option String :=
  let (content, trailing) := splitTrailingWhitespace body.toList
  if content.isEmpty then none else
  let (before, lastLine) := splitLastLine content
  match parsePureTagLine lastLine with
  | some existing =>
    if !existing.contains tag then none
    else if (existing.erase tag).isEmpty then
      some (String.ofList ((before.reverse.dropWhile (· == '\n')).reverse ++ trailing))
    else some (String.ofList (before ++ joinTagLine (existing.erase tag) ++ trailing))
  | none => none

end HolderCore
