import JsonReader.Lexeme.NumberLiteral
import JsonReader.Lexeme.StringLiteral
import JsonReader.Lexeme.Trivia

/-!
# Scanning

Cutting a whole text into lexemes.

## Main definitions

* `lexLiteral`, `lexDelimiter` read the significant lexemes, `lexAny` any lexeme.
* `scan` cuts a text into pieces, up to its end or to the first place where no lexeme begins.
-/

namespace JsonReader

/-- The three words that are literals. A word is not required to end where the text goes on. -/
def lexKeyword : Lexer Literal
  | 't' :: 'r' :: 'u' :: 'e' :: rest => .ok (.bool true, rest)
  | 'f' :: 'a' :: 'l' :: 's' :: 'e' :: rest => .ok (.bool false, rest)
  | 'n' :: 'u' :: 'l' :: 'l' :: rest => .ok (.null, rest)
  | _ => .error [⟨0, .tag⟩, ⟨0, .alt⟩, ⟨0, .context "keyword literal"⟩]

/-- A string, a number or a word; a failure reports the attempt at a word. -/
def lexLiteral : Lexer Lexeme := fun s =>
  match lexString s with
  | .ok (text, rest) => .ok (.literal (.string text), rest)
  | .error _ =>
    match takeNumber? s with
    | some (source, rest) => .ok (.literal (.number (String.ofList source)), rest)
    | none =>
      match lexKeyword s with
      | .ok (literal, rest) => .ok (.literal literal, rest)
      | .error failure => .error (failure ++ [⟨0, .alt⟩, ⟨0, .context "literal"⟩])

/-- One of the six delimiters. -/
def lexDelimiter : Lexer Lexeme
  | c :: rest =>
    match Delimiter.ofChar? c with
    | some d => .ok (.delimiter d, rest)
    | none => .error [⟨0, .tag⟩, ⟨0, .alt⟩, ⟨0, .context "delimiter"⟩]
  | [] => .error [⟨0, .tag⟩, ⟨0, .alt⟩, ⟨0, .context "delimiter"⟩]

/-- Tries the one lexer and then the other, whose failure counts. -/
def Lexer.orElse {α : Type} (first second : Lexer α) : Lexer α := fun s =>
  match first s with
  | .ok found => .ok found
  | .error _ => second s

/-- Any lexeme; a failure reports the attempt at a delimiter. -/
def lexAny : Lexer Lexeme := fun s =>
  match (((lexBlank.orElse lexNewline).orElse lexComment).orElse lexLiteral).orElse lexDelimiter s with
  | .ok found => .ok found
  | .error failure => .error (failure ++ [⟨0, .alt⟩])

theorem suffix_and_lt_of_append {source rest s : List Char} (hne : source ≠ [])
    (happ : source ++ rest = s) : rest <:+ s ∧ rest.length < s.length := by
  subst happ
  have := List.length_pos_iff.mpr hne
  exact ⟨List.suffix_append source rest, by rw [List.length_append]; omega⟩

theorem lexKeyword_advances : lexKeyword.Advances := by
  intro s a rest h
  unfold lexKeyword at h
  split at h
  · cases h
    exact suffix_and_lt_of_append (List.cons_ne_nil 't' ['r', 'u', 'e']) rfl
  · cases h
    exact suffix_and_lt_of_append (List.cons_ne_nil 'f' ['a', 'l', 's', 'e']) rfl
  · cases h
    exact suffix_and_lt_of_append (List.cons_ne_nil 'n' ['u', 'l', 'l']) rfl
  · simp at h

theorem lexLiteral_advances : lexLiteral.Advances := by
  intro s a rest h
  unfold lexLiteral at h
  split at h
  · next hs =>
    cases h
    exact lexString_advances hs
  · split at h
    · next hn =>
      simp only [Except.ok.injEq, Prod.mk.injEq] at h
      obtain ⟨-, rfl⟩ := h
      exact suffix_and_lt_of_append (append_of_takeNumber? hn).1 (append_of_takeNumber? hn).2
    · split at h
      · next hk =>
        cases h
        exact lexKeyword_advances hk
      · simp at h

theorem lexDelimiter_advances : lexDelimiter.Advances := by
  intro s a rest h
  unfold lexDelimiter at h
  split at h
  · split at h
    · cases h
      exact suffix_and_lt_of_suffix_cons List.suffix_rfl
    · simp at h
  · simp at h

theorem Lexer.Advances.orElse {α : Type} {first second : Lexer α} (hf : first.Advances)
    (hs : second.Advances) : (first.orElse second).Advances := by
  intro s a rest h
  unfold Lexer.orElse at h
  split at h
  · next he =>
    cases h
    exact hf he
  · exact hs h

/-- Every lexeme takes at least one character. -/
theorem lexAny_advances : lexAny.Advances := by
  intro s a rest h
  unfold lexAny at h
  split at h
  · next he =>
    cases h
    exact ((((lexBlank_advances.orElse lexNewline_advances).orElse lexComment_advances).orElse
      lexLiteral_advances).orElse lexDelimiter_advances) he
  · simp at h

/-- A lexeme with the text that it was read from. -/
structure Piece where
  lexeme : Lexeme
  source : List Char
  deriving DecidableEq, Repr

/-- A text cut into pieces. Where no lexeme begins, `unread` holds what is left and why. -/
structure Scan where
  pieces : List Piece
  unread : Option (List Char × LexFailure)

/-- A scan of one more piece at the front. -/
def Scan.cons (piece : Piece) (rest : Scan) : Scan := ⟨piece :: rest.pieces, rest.unread⟩

@[simp] theorem Scan.pieces_cons (piece : Piece) (rest : Scan) :
    (rest.cons piece).pieces = piece :: rest.pieces := rfl

@[simp] theorem Scan.unread_cons (piece : Piece) (rest : Scan) :
    (rest.cons piece).unread = rest.unread := rfl

/-- Cuts a text into lexemes, one after the other. -/
def scan (s : List Char) : Scan :=
  if s = [] then ⟨[], none⟩
  else
    match h : lexAny s with
    | .ok (lexeme, rest) =>
      have : rest.length < s.length := (lexAny_advances h).2
      (scan rest).cons ⟨lexeme, s.take (s.length - rest.length)⟩
    | .error failure => ⟨[], some (s, failure)⟩
termination_by s.length

@[simp] theorem scan_nil : scan [] = ⟨[], none⟩ := by
  unfold scan
  rfl

/-- The pieces and what is left unread make up the text. -/
theorem flatMap_source_scan (s : List Char) :
    (scan s).pieces.flatMap Piece.source ++ ((scan s).unread.map Prod.fst).getD [] = s := by
  fun_induction scan s with
  | case1 => rfl
  | case2 s _ lexeme rest h _ ih =>
    obtain ⟨source, happ⟩ := (lexAny_advances h).1
    simp only [Scan.pieces_cons, Scan.unread_cons, List.flatMap_cons, List.append_assoc, ih]
    subst happ
    simp
  | case3 => rfl

end JsonReader
