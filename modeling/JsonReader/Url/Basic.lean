import JsonReader.Url.Host
import JsonReader.Url.Path

/-!
# Uniform resource locators

## Main definitions

* `Url` is a URL in its parts, each in its written form; `Url.text` puts them together.
-/

namespace JsonReader

/-- Who is asked for a resource: credentials, a host, and a port unless it is the usual one. -/
structure Authority where
  username : String := ""
  password : String := ""
  host : Host
  port : Option Nat := none
  deriving DecidableEq, Repr

/-- An absolute URL. -/
structure Url where
  scheme : String
  authority : Option Authority
  path : String
  query : Option String
  fragment : Option String
  deriving DecidableEq, Repr

namespace Authority

/-- User name and password before the at sign, or nothing. -/
def credentials (a : Authority) : String :=
  let password := if a.password.isEmpty then "" else ":" ++ a.password
  if a.username.isEmpty && a.password.isEmpty then "" else a.username ++ password ++ "@"

/-- The authority behind its two slashes. -/
def text (a : Authority) : String :=
  let port := match a.port with
    | some n => ":" ++ toString n
    | none => ""
  "//" ++ a.credentials ++ a.host.text ++ port

end Authority

namespace Url

/-- The text of a URL. Where a path without an authority begins with two slashes, a dot segment keeps
it from being taken for one. -/
def text (u : Url) : String :=
  let authority := match u.authority with
    | some a => a.text
    | none => if u.path.startsWith "//" then "/." else ""
  let query := match u.query with
    | some q => "?" ++ q
    | none => ""
  let fragment := match u.fragment with
    | some f => "#" ++ f
    | none => ""
  u.scheme ++ ":" ++ authority ++ u.path ++ query ++ fragment

end Url

end JsonReader
