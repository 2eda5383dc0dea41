import JsonReader.Url.Percent

/-!
# Paths of URLs

A path is a row of segments. Dot segments are carried out while the path is read.

## Main definitions

* `takePath` reads the segments of a path.
-/

namespace JsonReader.UrlText

/-- Whether a segment means the segment before it. -/
def isDoubleDot (segment : List Char) : Bool :=
  let lower := segment.map Char.toLower
  lower = ['.', '.'] || lower = ['.', '%', '2', 'e'] || lower = ['%', '2', 'e', '.'] ||
    lower = ['%', '2', 'e', '%', '2', 'e']

/-- Whether a segment means its own place. -/
def isSingleDot (segment : List Char) : Bool :=
  let lower := segment.map Char.toLower
  lower = ['.'] || lower = ['%', '2', 'e']

/-- A letter and a colon, or a bar in place of the colon. -/
def isDriveLetter : List Char → Bool
  | [c, d] => c.isAlpha && (d = ':' || d = '|')
  | _ => false

/-- Drops the last segment, but not a drive letter. -/
def shorten (segments : List (List Char)) : List (List Char) :=
  match segments.getLast? with
  | some last => if isDriveLetter last then segments else segments.dropLast
  | none => []

/-- What separates segments: a slash, and in special schemes also a backslash. -/
def isSlash (special : Bool) (c : Char) : Bool := c = '/' || (special && c = '\\')

/-- Ends a path. -/
def isPathEnd (c : Char) : Bool := c = '?' || c = '#'

/-- Adds a segment to a path. A dot segment at the end leaves an empty one behind it. In a file path a
drive letter in the first place gets its colon. -/
def addSegment (file last : Bool) (segments : List (List Char)) (segment : List Char) :
    List (List Char) :=
  if isDoubleDot segment then shorten segments ++ (if last then [[]] else [])
  else if isSingleDot segment then segments ++ (if last then [[]] else [])
  else if file && segments.isEmpty && isDriveLetter segment then [segment.take 1 ++ [':']]
  else segments ++ [segment]

/-- Reads segments up to the end of the path: the segments, and the rest. The first two lists hold what
has been read, the second one the characters of the segment that is being read, in reverse order. -/
def takePath (special file : Bool) (segments : List (List Char)) (current : List Char) :
    List Char → List (List Char) × List Char
  | [] => (addSegment file true segments (percentEncode pathSet current.reverse), [])
  | c :: rest =>
    if isPathEnd c then
      (addSegment file true segments (percentEncode pathSet current.reverse), c :: rest)
    else if isSlash special c then
      takePath special file
        (addSegment file false segments (percentEncode pathSet current.reverse)) [] rest
    else takePath special file segments (c :: current) rest

/-- The text of a path: a slash before each segment. -/
def pathText (segments : List (List Char)) : List Char :=
  segments.flatMap ('/' :: ·)

end JsonReader.UrlText
