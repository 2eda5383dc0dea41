import JsonReader.Lexeme.Scan

/-!
# Outlines

The outline of a strict document: no comments, no comma before a closing mark. The content of a
string value is dropped and a number keeps its source text, so a part that nobody asks for needs no
meaning of its own. It may hold numbers out of any range and escapes that denote no character.

## Main definitions

* `Outline` is a tree.
* `Outline.readValue` reads one outline off the front of a text, `Outline.read?` a whole text.
-/

namespace JsonReader

/-- A document without the content of its string values. A name that denotes no text is `none`. -/
inductive Outline
  | null
  | bool (b : Bool)
  | number (source : List Char)
  | string
  | array (items : List Outline)
  | object (entries : List (Option String × Outline))

namespace Outline

/-- What may stand between the parts of a strict document. -/
def isSeparator (c : Char) : Bool := isSpaceOrTab c || isLineEnd c

/-- Drops the separators at the front. -/
def dropSeparators (s : List Char) : List Char := s.dropWhile isSeparator

theorem length_dropSeparators_le (s : List Char) : (dropSeparators s).length ≤ s.length :=
  (s.dropWhile_suffix isSeparator).length_le

theorem length_lt_of_dropSeparators {s rest : List Char} {c : Char}
    (h : dropSeparators s = c :: rest) : rest.length < s.length := by
  have := length_dropSeparators_le s
  rw [h] at this
  exact this

/-- The characters that make an escape of two characters. -/
def shortEscapes : List Char := ['"', '\\', '/', 'b', 'f', 'n', 'r', 't']

/-- Passes over the body of a string and its closing quote. Surrogates need not come in pairs. -/
def skimBody? : List Char → Option (List Char)
  | [] => none
  | '"' :: rest => some rest
  | '\\' :: 'u' :: a :: b :: c :: d :: rest =>
    if (Text.hexValues? [a, b, c, d]).isSome then skimBody? rest else none
  | '\\' :: c :: rest => if shortEscapes.contains c then skimBody? rest else none
  | c :: rest => if isRaw c then skimBody? rest else none

theorem length_lt_of_skimBody? {s rest : List Char} (h : skimBody? s = some rest) :
    rest.length < s.length := by
  fun_induction skimBody? s with
  | case1 => simp at h
  | case2 r =>
    cases h
    exact Nat.lt_succ_self _
  | case3 a b c d r _ ih =>
    have := ih h
    simp only [List.length_cons]
    omega
  | case4 => simp at h
  | case5 c r _ _ ih =>
    have := ih h
    simp only [List.length_cons]
    omega
  | case6 => simp at h
  | case7 c r _ _ _ _ ih =>
    have := ih h
    simp only [List.length_cons]
    omega
  | case8 => simp at h

/-- What was found at the front of a text, and the text behind it, which is shorter. -/
abbrev Found (α : Type) (s : List Char) : Type :=
  Option (α × { rest : List Char // rest.length < s.length })

/-- What was found in a shorter text, as found in the text itself. -/
def Found.within {α : Type} {s t : List Char} (h : t.length < s.length) (found : Found α t) :
    Found α s :=
  found.map fun (a, rest) => (a, ⟨rest.1, Nat.lt_trans rest.2 h⟩)

/-- The body of a string. -/
def readStringBody (s : List Char) : Found Unit s :=
  match h : skimBody? s with
  | some rest => some ((), ⟨rest, length_lt_of_skimBody? h⟩)
  | none => none

/-- A name: what it denotes, if that is a text. -/
def readName (s : List Char) : Found (Option String) s :=
  match h : dropSeparators s with
  | '"' :: rest =>
    Found.within (length_lt_of_dropSeparators h) <|
      (readStringBody rest).map fun ((), behind) =>
        ((lexString (dropSeparators s)).toOption.map (·.1), behind)
  | _ => none

/-- One given mark. -/
def readMark (mark : Char) (s : List Char) : Found Unit s :=
  match h : dropSeparators s with
  | c :: rest => if c = mark then some ((), ⟨rest, length_lt_of_dropSeparators h⟩) else none
  | [] => none

/-- A number or a word. -/
def readScalar (s : List Char) : Found Outline s :=
  match h : takeNumber? (dropSeparators s) with
  | some (source, rest) =>
    have hs := append_of_takeNumber? h
    some (number source, ⟨rest, Nat.lt_of_lt_of_le (suffix_and_lt_of_append hs.1 hs.2).2
      (length_dropSeparators_le s)⟩)
  | none =>
    match h' : lexKeyword (dropSeparators s) with
    | .ok (.bool b, rest) =>
      some (bool b, ⟨rest, Nat.lt_of_lt_of_le (lexKeyword_advances h').2
        (length_dropSeparators_le s)⟩)
    | .ok (_, rest) =>
      some (null, ⟨rest, Nat.lt_of_lt_of_le (lexKeyword_advances h').2
        (length_dropSeparators_le s)⟩)
    | .error _ => none

mutual

/-- A value of any kind. -/
def readValue (s : List Char) : Found Outline s :=
  match h : dropSeparators s with
  | '[' :: rest =>
    have hr : rest.length < s.length := length_lt_of_dropSeparators h
    Found.within hr <|
      match readMark ']' rest with
      | some ((), behind) => some (array [], behind)
      | none => (readItems rest).map fun (items, behind) => (array items, behind)
  | '\x7b' :: rest =>
    have hr : rest.length < s.length := length_lt_of_dropSeparators h
    Found.within hr <|
      match readMark '\x7d' rest with
      | some ((), behind) => some (object [], behind)
      | none => (readEntries rest).map fun (entries, behind) => (object entries, behind)
  | '"' :: rest =>
    Found.within (length_lt_of_dropSeparators h) <|
      (readStringBody rest).map fun ((), behind) => (string, behind)
  | _ => readScalar s
termination_by (s.length, 0)

/-- The items of an array that is not empty, and its end. -/
def readItems (s : List Char) : Found (List Outline) s :=
  match readValue s with
  | none => none
  | some (v, ⟨rest, hr⟩) =>
    Found.within hr <|
      match readMark ',' rest with
      | some ((), ⟨behind, hb⟩) =>
        have : behind.length < s.length := Nat.lt_trans hb hr
        Found.within hb <| (readItems behind).map fun (items, last) => (v :: items, last)
      | none => (readMark ']' rest).map fun ((), last) => ([v], last)
termination_by (s.length, 1)

/-- The entries of an object that is not empty, and its end. -/
def readEntries (s : List Char) : Found (List (Option String × Outline)) s :=
  match readName s with
  | none => none
  | some (name, ⟨afterName, hn⟩) =>
    match readMark ':' afterName with
    | none => none
    | some ((), ⟨afterColon, hc⟩) =>
      have hs : afterColon.length < s.length := Nat.lt_trans hc hn
      match readValue afterColon with
      | none => none
      | some (v, ⟨rest, hv⟩) =>
        have hr : rest.length < s.length := Nat.lt_trans hv hs
        Found.within hr <|
          match readMark ',' rest with
          | some ((), ⟨behind, hb⟩) =>
            have : behind.length < s.length := Nat.lt_trans hb hr
            Found.within hb <|
              (readEntries behind).map fun (entries, last) => ((name, v) :: entries, last)
          | none => (readMark '\x7d' rest).map fun ((), last) => ([(name, v)], last)
termination_by (s.length, 1)

end

/-- The outline of a whole text. Behind it only separators may stand. -/
def read? (s : List Char) : Option Outline :=
  match readValue s with
  | some (outline, ⟨rest, _⟩) => if (dropSeparators rest).isEmpty then some outline else none
  | none => none

end Outline

end JsonReader
