import JsonReader.Parser.Basic

/-!
# Combinators

Choice, repetition and the other ways to make a parser from parsers. An alternative is tried on a copy
of the cursor, so only an alternative that succeeds moves it.

## Main definitions

* `Parser.or`, `Parser.optional`, `Parser.capture` try a parser and go on without it.
* `Parser.many` and `Parser.many1` repeat a parser.
* `Parser.filter`, `Parser.replace`, `Parser.between`, `Parser.withContext` and `Parser.pairWith`
  change or join results.
-/

namespace JsonReader.Parser

variable {α β γ : Type}

/-- The first parser or, if it fails, the second one from the same place. -/
def or (p q : Parser α) : Parser α where
  run s c :=
    let first := p.run s c
    match first.result with
    | .ok _ => first
    | .error _ => (q.run s c).after first.notes

/-- Yields no value, and stays in place, where the parser fails. -/
def optional (p : Parser α) : Parser (Option α) where
  run s c :=
    let o := p.run s c
    match o.result with
    | .ok a => ⟨.ok (some a), o.cursor, o.notes⟩
    | .error _ => ⟨.ok none, c, o.notes⟩

/-- Yields the result of a parser, a failure too; where it failed, the cursor stays in place. -/
def capture (p : Parser α) : Parser (ParseResult α) where
  run s c :=
    let o := p.run s c
    match o.result with
    | .ok a => ⟨.ok (.ok a), o.cursor, o.notes⟩
    | .error e => ⟨.ok (.error e), c, o.notes⟩

/-- Repeats a parser until it fails, but at most so many times. The failing attempt leaves nothing
but its notes. -/
def manyAtMost (p : Parser α) (s : Settings) : Nat → Cursor → Outcome ParseError (List α)
  | 0, c => ⟨.ok [], c, []⟩
  | count + 1, c =>
    let o := p.run s c
    match o.result with
    | .ok a =>
      let rest := p.manyAtMost s count o.cursor
      ⟨rest.result.map (a :: ·), rest.cursor, o.notes ++ rest.notes⟩
    | .error _ => ⟨.ok [], c, o.notes⟩

/-- Repeats a parser until it fails. A parser that reads at least one token whenever it succeeds
fails at the latest when no token is left, so one attempt more than there are tokens is enough. For
a parser that succeeds where it stands a loop would not return. Here the attempts run out, and the
list has a copy of the value for each. -/
def many (p : Parser α) : Parser (List α) where
  run s c := p.manyAtMost s (c.ahead.length + 1) c

/-- Repeats a parser that has to succeed at least once. -/
def many1 (p : Parser α) : Parser (List α) := do
  let first ← p
  let rest ← p.many
  return first :: rest

/-- Joins the value with that of the parser it picks. -/
def pairWith (p : Parser α) (next : α → Parser β) (join : α → β → γ) : Parser γ := do
  let a ← p
  let b ← next a
  return join a b

/-- Fails where the value does not pass the test. -/
def filter [Shown α] (test : α → Bool) (p : Parser α) : Parser α where
  run s c :=
    let o := p.run s c
    match o.result with
    | .ok a =>
      if test a then o
      else ⟨.error (.rejected (shown a) o.cursor.position), o.cursor, o.notes⟩
    | .error _ => o

/-- Yields a fixed value instead. -/
def replace (p : Parser α) (b : β) : Parser β := do
  let _ ← p
  return b

/-- Yields the value in the middle of three. -/
def between (left : Parser α) (p : Parser β) (right : Parser γ) : Parser β := do
  let _ ← left
  let b ← p
  let _ ← right
  return b

/-- Adds a remark to a failure. -/
def withContext (message : String) (p : Parser α) : Parser α where
  run s c :=
    let o := p.run s c
    { o with result := o.result.mapError (.context message) }

/-- Moves over so many tokens and shows each of them. -/
def describeNext : Nat → Parser (List String)
  | 0 => pure []
  | count + 1 => do
    let first ← (⟨fun _ c =>
      match c.advance? with
      | some d => ⟨.ok d.describe, d, []⟩
      | none => ⟨.error (.endOfStream c.position), c, []⟩⟩ : Parser String)
    let rest ← describeNext count
    return first :: rest

end JsonReader.Parser
