import JsonReader.Cursor
import JsonReader.Failure
import JsonReader.Settings

/-!
# Parsers

A parser reads from a cursor and yields a result. Where it succeeds it leaves the cursor behind the
tokens that it read; where it fails it leaves the cursor wherever it had got to, and whoever asked for
the attempt decides whether to go back.

## Main definitions

* `Outcome` is what a run leaves: a result, a cursor and notes.
* `Parser` is a function from settings and a cursor to an outcome; parsers are a monad.
* `Parser.attempt` goes back on failure, `Parser.note` leaves a note.
* `Parser.parse` runs a parser that has to succeed, `Parser.parseText` on a text.
-/

namespace JsonReader

/-- A remark about the course of a run: a text and the position where it was made. -/
structure Note where
  text : String
  position : Nat
  deriving DecidableEq, Repr

/-- What a run leaves. The notes tell everything that was tried, in order: going back to an earlier
cursor does not unmake a note. -/
structure Outcome (ε α : Type) where
  result : Except ε α
  cursor : Cursor
  notes : List Note := []

namespace Outcome

variable {ε α : Type}

/-- An outcome with earlier notes before its own. -/
def after (notes : List Note) (o : Outcome ε α) : Outcome ε α :=
  { o with notes := notes ++ o.notes }

@[simp] theorem result_after (notes : List Note) (o : Outcome ε α) :
    (o.after notes).result = o.result := rfl

@[simp] theorem cursor_after (notes : List Note) (o : Outcome ε α) :
    (o.after notes).cursor = o.cursor := rfl

@[simp] theorem notes_after (notes : List Note) (o : Outcome ε α) :
    (o.after notes).notes = notes ++ o.notes := rfl

@[simp] theorem after_nil (o : Outcome ε α) : o.after [] = o := rfl

@[simp] theorem after_after (first second : List Note) (o : Outcome ε α) :
    (o.after second).after first = o.after (first ++ second) := by
  simp [after]

end Outcome

/-- A parser for values of a type. -/
structure Parser (α : Type) where
  run : Settings → Cursor → Outcome ParseError α

namespace Parser

variable {α β : Type}

@[ext] theorem ext {p q : Parser α} (h : ∀ s c, p.run s c = q.run s c) : p = q := by
  cases p
  cases q
  congr
  funext s c
  exact h s c

/-- Yields a value and reads nothing. -/
protected def pure (a : α) : Parser α := ⟨fun _ c => ⟨.ok a, c, []⟩⟩

/-- Fails with a given cause. -/
def throw (e : ParseError) : Parser α := ⟨fun _ c => ⟨.error e, c, []⟩⟩

/-- Fails with a text. -/
def fail (text : String) : Parser α := throw (.failed text)

/-- Yields what a result holds. -/
def ofResult (r : ParseResult α) : Parser α := ⟨fun _ c => ⟨r, c, []⟩⟩

/-- Goes on with the parser that the value picks. -/
protected def bind (p : Parser α) (next : α → Parser β) : Parser β where
  run s c :=
    let first := p.run s c
    match first.result with
    | .ok a => ((next a).run s first.cursor).after first.notes
    | .error e => ⟨.error e, first.cursor, first.notes⟩

instance : Monad Parser where
  pure := Parser.pure
  bind := Parser.bind

@[simp] theorem run_pure (a : α) (s : Settings) (c : Cursor) :
    (pure a : Parser α).run s c = ⟨.ok a, c, []⟩ := rfl

@[simp] theorem run_throw (e : ParseError) (s : Settings) (c : Cursor) :
    (throw e : Parser α).run s c = ⟨.error e, c, []⟩ := rfl

theorem run_bind (p : Parser α) (next : α → Parser β) (s : Settings) (c : Cursor) :
    (p >>= next).run s c =
      match (p.run s c).result with
      | .ok a => ((next a).run s (p.run s c).cursor).after (p.run s c).notes
      | .error e => ⟨.error e, (p.run s c).cursor, (p.run s c).notes⟩ := rfl

/-- What follows a success begins where it ended. -/
theorem run_bind_of_ok {p : Parser α} {next : α → Parser β} {s : Settings} {c : Cursor} {a : α}
    (h : (p.run s c).result = .ok a) :
    (p >>= next).run s c = ((next a).run s (p.run s c).cursor).after (p.run s c).notes := by
  rw [run_bind, h]

/-- Nothing follows a failure. -/
theorem run_bind_of_error {p : Parser α} {next : α → Parser β} {s : Settings} {c : Cursor}
    {e : ParseError} (h : (p.run s c).result = .error e) :
    (p >>= next).run s c = ⟨.error e, (p.run s c).cursor, (p.run s c).notes⟩ := by
  rw [run_bind, h]

/-- Parsers obey the monad laws, notes included. -/
instance : LawfulMonad Parser := LawfulMonad.mk' Parser
  (fun p => by
    ext s c : 2
    change (p >>= pure).run s c = p.run s c
    rw [run_bind]
    rcases p.run s c with ⟨_ | _, c', n⟩ <;> simp [Outcome.after])
  (fun a f => by
    ext s c : 2
    rfl)
  (fun p f g => by
    ext s c : 2
    simp only [run_bind]
    rcases p.run s c with ⟨_ | a, c', n⟩
    · rfl
    · simp only [Outcome.result_after, Outcome.cursor_after, Outcome.notes_after]
      rcases (f a).run s c' with ⟨_ | b, c'', n'⟩ <;> simp [Outcome.after])

/-- Goes back to the start on failure. -/
def attempt (p : Parser α) : Parser α where
  run s c :=
    let o := p.run s c
    match o.result with
    | .ok _ => o
    | .error _ => { o with cursor := c }

/-- Leaves a note and reads nothing. -/
def note (text : String) : Parser Unit := ⟨fun _ c => ⟨.ok (), c, [⟨text, c.position⟩]⟩⟩

/-- Runs a parser that has to succeed. A failure tells where the cursor was left. -/
def parse (p : Parser α) (s : Settings) (c : Cursor) : Outcome Failure α :=
  let o := p.run s c
  { o with result := o.result.mapError fun e =>
      Failure.parse e o.cursor.location.1 o.cursor.location.2 }

/-- Tokenizes a text and runs a parser from its first token. What follows the value is not
looked at. -/
def parseText (p : Parser α) (s : Settings) (text : String) : Except Failure α :=
  match tokenize s.tokenizer text with
  | .ok tokens => (p.parse s (Cursor.ofTokens tokens)).result
  | .error e => .error (.tokenizer e)

end Parser

end JsonReader
