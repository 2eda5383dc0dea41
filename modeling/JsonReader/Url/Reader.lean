import JsonReader.Url.Basic

/-!
# Reading URLs

Only absolute URLs are read. Blanks and controls around the text and all tabs and line breaks in it do
not count. The schemes of the web are special: their slashes may lean either way and be any number,
and they need a host.

## Main definitions

* `takeScheme?`, `takeAuthority?`, `takeQuery` and `takeFragment` read the parts.
* `Url.read?` reads a whole URL.
-/

namespace JsonReader

namespace UrlText

/-- What does not count at the ends. -/
def isPadding (c : Char) : Bool := c.toNat ≤ 0x20

/-- What does not count anywhere. -/
def isTabOrBreak (c : Char) : Bool := c = '\t' || c = '\n' || c = '\r'

/-- The characters that count. -/
def clean (s : List Char) : List Char :=
  (((s.dropWhile isPadding).reverse.dropWhile isPadding).reverse).filter (!isTabOrBreak ·)

/-- The usual port of a special scheme other than that of files. -/
def usualPort? : String → Option Nat
  | "http" | "ws" => some 80
  | "https" | "wss" => some 443
  | "ftp" => some 21
  | _ => none

/-- The schemes that need a host. -/
def isSpecial (scheme : String) : Bool := (usualPort? scheme).isSome

/-- A letter and then letters, digits, and three signs, up to a colon. -/
def isSchemeChar (c : Char) : Bool := c.isAlphanum || c = '+' || c = '-' || c = '.'

/-- The scheme in lower case, and the text behind the colon. -/
def takeScheme? (s : List Char) : Option (String × List Char) :=
  match s.head?, s.dropWhile isSchemeChar with
  | some first, ':' :: rest =>
    if first.isAlpha then
      some (String.ofList ((s.takeWhile isSchemeChar).map Char.toLower), rest)
    else none
  | _, _ => none

/-- Whether the authority ends here. -/
def isAuthorityEnd (special : Bool) (c : Char) : Bool := isSlash special c || isPathEnd c

/-- What stands before the last at sign, and what stands behind it. -/
def splitCredentials? : List Char → Option (List Char × List Char)
  | [] => none
  | c :: rest =>
    match splitCredentials? rest with
    | some (before, behind) => some (c :: before, behind)
    | none => if c = '@' then some ([], rest) else none

/-- User name and password, encoded; the first colon stands between them. -/
def readCredentials (s : List Char) : String × String :=
  let encode (part : List Char) : String := String.ofList (percentEncode userSet part)
  (encode (s.takeWhile (· != ':')), encode ((s.dropWhile (· != ':')).drop 1))

/-- The host up to a colon outside brackets, and the rest. The flag says whether a bracket is open. -/
def splitHost (bracket : Bool) : List Char → List Char × List Char
  | [] => ([], [])
  | c :: rest =>
    if c = ':' && !bracket then ([], c :: rest)
    else
      let (host, rest') := splitHost (if c = '[' then true else if c = ']' then false else bracket) rest
      (c :: host, rest')

/-- A port behind its colon; there may be no digits, and then there is no port. -/
def readPort? : List Char → Option (Option Nat)
  | [] | [':'] => some none
  | ':' :: ds => (Number.natural? ds).bind fun n => if n < 0x10000 then some (some n) else none
  | _ => none

/-- Where a port ends. In every scheme a backslash ends it. -/
def isPortEnd (c : Char) : Bool := isSlash true c || isPathEnd c

/-- The credentials, the host and the port behind two slashes, and the rest. -/
def takeAuthority? (scheme : String) (s : List Char) : Option (Authority × List Char) := do
  let special := isSpecial scheme
  let whole := s.takeWhile (!isAuthorityEnd special ·)
  let credentials := splitCredentials? whole
  let (before, behind) := credentials.getD ([], whole)
  let (username, password) := readCredentials before
  let (hostText, portAndMore) := splitHost false behind
  let portText := portAndMore.takeWhile (!isPortEnd ·)
  let port ← readPort? portText
  let host ← if special then Host.readSpecial? hostText else Host.readOpaque? hostText
  let hasMore := !username.isEmpty || !password.isEmpty || !portAndMore.isEmpty
  let after := s.dropWhile (!isAuthorityEnd special ·)
  if hostText.isEmpty && (hasMore || credentials = some ([], []) && !after.isEmpty) then none
  else
    let rest := portAndMore.drop portText.length ++ after
    some (⟨username, password, host, if port = usualPort? scheme then none else port⟩, rest)

/-- A query behind its mark, and the rest. -/
def takeQuery (special : Bool) : List Char → Option String × List Char
  | '?' :: rest =>
    let set := if special then specialQuerySet else querySet
    (some (String.ofList (percentEncode set (rest.takeWhile (· != '#')))),
      rest.dropWhile (· != '#'))
  | s => (none, s)

/-- A fragment behind its mark. -/
def takeFragment : List Char → Option String
  | '#' :: rest => some (String.ofList (percentEncode fragmentSet rest))
  | _ => none

/-- Puts a URL together whose query and fragment are still to be read. -/
def finish (scheme : String) (special : Bool) (authority : Option Authority) (path : List Char)
    (rest : List Char) : Url :=
  let (query, rest) := takeQuery special rest
  ⟨scheme, authority, String.ofList path, query, takeFragment rest⟩

/-- Takes one slash off the front. -/
def dropSlash (special : Bool) : List Char → List Char
  | c :: rest => if isSlash special c then rest else c :: rest
  | [] => []

/-- A URL behind the slashes before its authority. A special scheme has a path in any case. -/
def readWithAuthority? (scheme : String) (s : List Char) : Option Url := do
  let special := isSpecial scheme
  let (authority, rest) ← takeAuthority? scheme s
  let bare := match rest with
    | [] => true
    | c :: _ => isPathEnd c
  if bare && !special then some (finish scheme special (some authority) [] rest)
  else
    let (segments, rest) := takePath special false [] [] (dropSlash special rest)
    some (finish scheme special (some authority) (pathText segments) rest)

/-- The path of a file URL: empty segments at the front are left out. -/
def filePathText (segments : List (List Char)) : List Char :=
  '/' :: ((pathText segments).dropWhile (· = '/'))

/-- Whether a drive letter took the first place of a path. -/
def startsWithDrive (segments : List (List Char)) : Bool :=
  match segments with
  | first :: _ => isDriveLetter first
  | [] => false

/-- A file URL with the given host behind its slashes; the local host is left out. -/
def finishFile (host : Option Host) (segments : List (List Char)) (rest : List Char) : Url :=
  finish "file" true (some { host := host.getD (.name "") }) (filePathText segments) rest

/-- The host of a file URL; the local host is none. -/
def readFileHost? (s : List Char) : Option (Option Host) :=
  if s.isEmpty then some none
  else
    (Host.readSpecial? s).map fun h => if h = .name "localhost" then none else some h

/-- A file URL behind two slashes: a host, which is no drive letter, and a path. A path that begins
with a drive letter needs no host. -/
def readFileWithHost? (s : List Char) : Option Url := do
  let hostText := s.takeWhile (!isAuthorityEnd true ·)
  let (hostText, rest) :=
    if isDriveLetter hostText then ([], s) else (hostText, s.drop hostText.length)
  let host ← readFileHost? hostText
  let (segments, rest) := takePath true true [] [] (dropSlash true rest)
  some (finishFile (if startsWithDrive segments then none else host) segments rest)

/-- A file URL without a host. -/
def readLocalFile (s : List Char) : Url :=
  let (segments, rest) := takePath true true [] [] (dropSlash true s)
  finishFile none segments rest

/-- A file URL behind its colon. -/
def readFile? : List Char → Option Url
  | a :: b :: rest =>
    if isSlash true a && isSlash true b then readFileWithHost? rest
    else some (readLocalFile (a :: b :: rest))
  | s => some (readLocalFile s)

/-- A URL without an authority: either a path from the root, or an opaque text. -/
def readWithoutAuthority (scheme : String) : List Char → Url
  | '/' :: rest =>
    let (segments, rest) := takePath false false [] [] rest
    finish scheme false none (pathText segments) rest
  | s =>
    finish scheme false none (percentEncode controls (s.takeWhile (!isPathEnd ·)))
      (s.dropWhile (!isPathEnd ·))

end UrlText

/-- What texts denote as URLs. -/
abbrev Url.Reader := List Char → Option Url

/-- Reads an absolute URL. -/
def Url.read? (s : List Char) : Option Url := do
  let (scheme, rest) ← UrlText.takeScheme? (UrlText.clean s)
  if scheme = "file" then UrlText.readFile? rest
  else if UrlText.isSpecial scheme then
    UrlText.readWithAuthority? scheme (rest.dropWhile (UrlText.isSlash true))
  else
    match rest with
    | '/' :: '/' :: rest => UrlText.readWithAuthority? scheme rest
    | rest => some (UrlText.readWithoutAuthority scheme rest)

end JsonReader
