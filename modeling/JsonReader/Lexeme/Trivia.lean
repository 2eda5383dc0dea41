import JsonReader.Lexeme.Basic

/-!
# Trivia

What may stand between the significant lexemes: runs of spaces and tabs, line breaks and comments.

## Main definitions

* `lexBlank`, `lexNewline`, `lexLineComment`, `lexBlockComment` read one of them.
* `lexComment` reads a comment of either kind.
-/

namespace JsonReader

/-- Space and tab; line breaks are lexemes of their own. -/
def isSpaceOrTab (c : Char) : Bool := c == ' ' || c == '\t'

/-- A non-empty run of spaces and tabs. -/
def lexBlank : Lexer Lexeme := fun s =>
  match s.takeWhile isSpaceOrTab with
  | [] => .error [⟨0, .takeWhile1⟩, ⟨0, .context "whitespace"⟩]
  | _ :: _ => .ok (.blank, s.dropWhile isSpaceOrTab)

theorem lexBlank_advances : lexBlank.Advances := by
  intro s a rest h
  unfold lexBlank at h
  split at h
  · simp at h
  · next c run hs =>
    simp only [Except.ok.injEq, Prod.mk.injEq] at h
    obtain ⟨-, rfl⟩ := h
    have happ := @List.takeWhile_append_dropWhile _ isSpaceOrTab s
    rw [hs] at happ
    have := suffix_and_lt_of_suffix_cons (c := c)
      (List.suffix_append run (s.dropWhile isSpaceOrTab))
    rwa [← List.cons_append, happ] at this

/-- CR LF, LF or CR. -/
def lexNewline : Lexer Lexeme
  | '\r' :: '\n' :: rest => .ok (.newline, rest)
  | '\n' :: rest => .ok (.newline, rest)
  | '\r' :: rest => .ok (.newline, rest)
  | _ => .error [⟨0, .tag⟩, ⟨0, .alt⟩, ⟨0, .context "newline"⟩]

theorem lexNewline_advances : lexNewline.Advances := by
  intro s a rest h
  unfold lexNewline at h
  split at h
  · simp only [Except.ok.injEq, Prod.mk.injEq] at h
    obtain ⟨-, rfl⟩ := h
    exact suffix_and_lt_of_suffix_cons (List.suffix_cons _ _)
  · simp only [Except.ok.injEq, Prod.mk.injEq] at h
    obtain ⟨-, rfl⟩ := h
    exact suffix_and_lt_of_suffix_cons List.suffix_rfl
  · simp only [Except.ok.injEq, Prod.mk.injEq] at h
    obtain ⟨-, rfl⟩ := h
    exact suffix_and_lt_of_suffix_cons List.suffix_rfl
  · simp at h

/-- CR and LF. -/
def isLineEnd (c : Char) : Bool := c == '\r' || c == '\n'

/-- The text up to a line end, which is LF, CR LF or the end of the text. A CR with no LF behind it
is not a line end, and then there is no answer. -/
def untilLineEnd? (s : List Char) : Option (List Char × List Char) :=
  match s.dropWhile (!isLineEnd ·) with
  | '\r' :: '\n' :: rest => some (s.takeWhile (!isLineEnd ·), '\r' :: '\n' :: rest)
  | '\r' :: _ => none
  | rest => some (s.takeWhile (!isLineEnd ·), rest)

theorem suffix_of_untilLineEnd? {s line rest : List Char}
    (h : untilLineEnd? s = some (line, rest)) : rest <:+ s := by
  have hd := s.dropWhile_suffix (!isLineEnd ·)
  unfold untilLineEnd? at h
  split at h
  · next hs =>
    simp only [Option.some.injEq, Prod.mk.injEq] at h
    rwa [← h.2, ← hs]
  · simp at h
  · simp only [Option.some.injEq, Prod.mk.injEq] at h
    rwa [← h.2]

/-- Two slashes and the rest of the line; the line end stays unread. -/
def lexLineComment : Lexer Lexeme
  | '/' :: '/' :: rest =>
    match untilLineEnd? rest with
    | some (line, rest) => .ok (.comment (String.ofList (Text.trimBlanks line)), rest)
    | none => .error [⟨2, .tag⟩, ⟨0, .context "line comment"⟩]
  | _ => .error [⟨0, .tag⟩, ⟨0, .context "line comment"⟩]

theorem lexLineComment_advances : lexLineComment.Advances := by
  intro s a rest h
  unfold lexLineComment at h
  split at h
  · split at h
    · next hu =>
      simp only [Except.ok.injEq, Prod.mk.injEq] at h
      obtain ⟨-, rfl⟩ := h
      exact suffix_and_lt_of_suffix_cons ((suffix_of_untilLineEnd? hu).trans (List.suffix_cons _ _))
    · simp at h
  · simp at h

/-- The text before the first end mark of a block comment, and the text behind that mark. -/
def untilCommentEnd? : List Char → Option (List Char × List Char)
  | [] => none
  | '*' :: '/' :: rest => some ([], rest)
  | c :: rest => (untilCommentEnd? rest).map fun (content, rest) => (c :: content, rest)

theorem suffix_of_untilCommentEnd? {s content rest : List Char}
    (h : untilCommentEnd? s = some (content, rest)) : rest <:+ s := by
  fun_induction untilCommentEnd? s generalizing content with
  | case1 => simp at h
  | case2 r =>
    simp only [Option.some.injEq, Prod.mk.injEq] at h
    obtain ⟨-, rfl⟩ := h
    exact (List.suffix_cons _ _).trans (List.suffix_cons _ _)
  | case3 c r _ ih =>
    simp only [Option.map_eq_some_iff, Prod.mk.injEq, Prod.exists] at h
    obtain ⟨content', _, h, -, rfl⟩ := h
    exact (ih h).trans (List.suffix_cons _ _)

/-- A block comment ends at the first end mark, so block comments do not nest. -/
def lexBlockComment : Lexer Lexeme
  | '/' :: '*' :: rest =>
    match untilCommentEnd? rest with
    | some (content, rest) => .ok (.comment (String.ofList content), rest)
    | none => .error [⟨2, .takeUntil⟩, ⟨0, .context "block comment"⟩]
  | _ => .error [⟨0, .tag⟩, ⟨0, .context "block comment"⟩]

theorem lexBlockComment_advances : lexBlockComment.Advances := by
  intro s a rest h
  unfold lexBlockComment at h
  split at h
  · split at h
    · next hu =>
      simp only [Except.ok.injEq, Prod.mk.injEq] at h
      obtain ⟨-, rfl⟩ := h
      exact suffix_and_lt_of_suffix_cons
        ((suffix_of_untilCommentEnd? hu).trans (List.suffix_cons _ _))
    · simp at h
  · simp at h

/-- A comment of either kind; a failure reports the attempt at a line comment. -/
def lexComment : Lexer Lexeme := fun s =>
  match lexBlockComment s with
  | .ok found => .ok found
  | .error _ =>
    match lexLineComment s with
    | .ok found => .ok found
    | .error failure => .error (failure ++ [⟨0, .alt⟩, ⟨0, .context "comment"⟩])

theorem lexComment_advances : lexComment.Advances := by
  intro s a rest h
  unfold lexComment at h
  split at h
  · next hb =>
    cases h
    exact lexBlockComment_advances hb
  · split at h
    · next hl =>
      cases h
      exact lexLineComment_advances hl
    · simp at h

end JsonReader
