import JsonReader.Lexeme.Scan
import JsonReader.Proofs.Lexeme.NumberLiteral
import JsonReader.Proofs.Lexeme.StringLiteral
import JsonReader.Proofs.Lexeme.Trivia

/-!
# Lexemes read the lexical grammar

`Lexes` says in one relation what `lexAny` reads: the alternatives exclude one another, so the order
in which they are tried does not show.

A text may grow at its far end. Its first lexeme keeps its kind, and it stays as it is if some other
lexeme stands behind it already.

## Main statements

* `lexAny_eq_ok_iff`: `lexAny` decides `Lexes`.
* `Lexes.kind_eq`, `Lexes.append`: the first lexeme of a prolonged text.
-/

namespace JsonReader

open Grammar

/-- A lexeme at the front of a text, and the text behind it. Runs of blanks and numbers are as long
as possible; a CR with a LF behind it is one line break. -/
inductive Lexes : List Char → Lexeme → List Char → Prop
  | blank {run rest : List Char} (hne : run ≠ []) (hrun : ∀ c ∈ run, isSpaceOrTab c = true)
      (hrest : Stops isSpaceOrTab rest) : Lexes (run ++ rest) .blank rest
  | lineFeed {rest : List Char} : Lexes ('\n' :: rest) .newline rest
  | carriageReturnLineFeed {rest : List Char} : Lexes ('\r' :: '\n' :: rest) .newline rest
  | carriageReturn {rest : List Char} (hrest : rest.head? ≠ some '\n') :
      Lexes ('\r' :: rest) .newline rest
  | blockComment {content rest : List Char} (hcontent : ¬ ['*', '/'] <:+: content) :
      Lexes ('/' :: '*' :: (content ++ '*' :: '/' :: rest)) (.comment (String.ofList content)) rest
  | lineComment {content rest : List Char} (hcontent : ∀ c ∈ content, c ≠ '\r' ∧ c ≠ '\n')
      (hend : AtLineEnd rest) :
      Lexes ('/' :: '/' :: (content ++ rest))
        (.comment (String.ofList (Text.trimBlanks content))) rest
  | string {body text rest : List Char} (hbody : StringBody body text) :
      Lexes ('"' :: (body ++ '"' :: rest)) (.literal (.string (String.ofList text))) rest
  | number {s source rest : List Char} (hsource : takeNumber? s = some (source, rest)) :
      Lexes s (.literal (.number (String.ofList source))) rest
  | trueWord {rest : List Char} :
      Lexes ('t' :: 'r' :: 'u' :: 'e' :: rest) (.literal (.bool true)) rest
  | falseWord {rest : List Char} :
      Lexes ('f' :: 'a' :: 'l' :: 's' :: 'e' :: rest) (.literal (.bool false)) rest
  | nullWord {rest : List Char} : Lexes ('n' :: 'u' :: 'l' :: 'l' :: rest) (.literal .null) rest
  | delimiter {rest : List Char} (d : Delimiter) : Lexes (d.char :: rest) (.delimiter d) rest

/-! ## From the lexers to the relation -/

theorem lexes_of_lexBlank {s rest : List Char} {l : Lexeme} (h : lexBlank s = .ok (l, rest)) :
    Lexes s l rest := by
  obtain ⟨hrun, hstops, happ⟩ := longestRun_eq_iff.mp
    (⟨rfl, rfl⟩ : s.takeWhile isSpaceOrTab = _ ∧ s.dropWhile isSpaceOrTab = _)
  rw [lexBlank] at h
  split at h
  · simp at h
  · next c run hs =>
    simp only [Except.ok.injEq, Prod.mk.injEq] at h
    obtain ⟨rfl, rfl⟩ := h
    have hlex := Lexes.blank (by simp [hs]) hrun hstops
    rwa [← happ] at hlex

theorem lexes_of_lexNewline {s rest : List Char} {l : Lexeme} (h : lexNewline s = .ok (l, rest)) :
    Lexes s l rest := by
  simp only [lexNewline] at h
  split at h
  · cases h
    exact .carriageReturnLineFeed
  · cases h
    exact .lineFeed
  · next r hr =>
    cases h
    refine .carriageReturn ?_
    intro hn
    obtain ⟨t, rfl⟩ := List.head?_eq_some_iff.mp hn
    exact hr t rfl
  · simp at h

theorem lexes_of_lexComment {s rest : List Char} {l : Lexeme} (h : lexComment s = .ok (l, rest)) :
    Lexes s l rest := by
  rw [lexComment] at h
  split at h
  · next hb =>
    cases h
    simp only [lexBlockComment] at hb
    split at hb
    · split at hb
      · next hu =>
        cases hb
        obtain ⟨hcontent, rfl⟩ := untilCommentEnd?_eq_some_iff.mp hu
        exact .blockComment hcontent
      · simp at hb
    · simp at hb
  · split at h
    · next hl =>
      cases h
      simp only [lexLineComment] at hl
      split at hl
      · split at hl
        · next hu =>
          cases hl
          obtain ⟨hcontent, hend, rfl⟩ := untilLineEnd?_eq_some_iff.mp hu
          exact .lineComment hcontent hend
        · simp at hl
      · simp at hl
    · simp at h

theorem lexes_of_lexLiteral {s rest : List Char} {l : Lexeme} (h : lexLiteral s = .ok (l, rest)) :
    Lexes s l rest := by
  rw [lexLiteral] at h
  split at h
  · next hs =>
    cases h
    obtain ⟨body, text, hbody, rfl, rfl⟩ := lexString_eq_ok_iff.mp hs
    exact .string hbody
  · split at h
    · next hn =>
      cases h
      exact .number hn
    · split at h
      · next hk =>
        cases h
        simp only [lexKeyword] at hk
        split at hk
        · cases hk
          exact .trueWord
        · cases hk
          exact .falseWord
        · cases hk
          exact .nullWord
        · simp at hk
      · simp at h

theorem lexes_of_lexDelimiter {s rest : List Char} {l : Lexeme}
    (h : lexDelimiter s = .ok (l, rest)) : Lexes s l rest := by
  simp only [lexDelimiter] at h
  split at h
  · split at h
    · next d hd =>
      cases h
      have hc := List.find?_some hd
      obtain rfl : d.char = _ := by simpa using hc
      exact .delimiter d
    · simp at h
  · simp at h

theorem eq_ok_of_orElse {α : Type} {first second : Lexer α} {s : List Char} {found : α × List Char}
    (h : first.orElse second s = .ok found) : first s = .ok found ∨ second s = .ok found := by
  rw [Lexer.orElse] at h
  split at h
  · next hf =>
    cases h
    exact .inl hf
  · exact .inr h

theorem lexes_of_lexAny {s rest : List Char} {l : Lexeme} (h : lexAny s = .ok (l, rest)) :
    Lexes s l rest := by
  rw [lexAny] at h
  split at h
  · next hall =>
    cases h
    rcases eq_ok_of_orElse hall with hall | hd
    · rcases eq_ok_of_orElse hall with hall | hl
      · rcases eq_ok_of_orElse hall with hall | hc
        · rcases eq_ok_of_orElse hall with hb | hn
          · exact lexes_of_lexBlank hb
          · exact lexes_of_lexNewline hn
        · exact lexes_of_lexComment hc
      · exact lexes_of_lexLiteral hl
    · exact lexes_of_lexDelimiter hd
  · simp at h

/-! ## From the relation to the lexers -/

theorem lexBlank_cons {c : Char} (h : isSpaceOrTab c = false) (s : List Char) :
    lexBlank (c :: s) = .error [⟨0, .takeWhile1⟩, ⟨0, .context "whitespace"⟩] := by
  simp [lexBlank, h]

theorem lexAny_of_takeNumber? {s source rest : List Char}
    (h : takeNumber? s = some (source, rest)) :
    lexAny s = .ok (.literal (.number (String.ofList source)), rest) := by
  cases s with
  | nil => simp [takeNumber?, takeMinus, takeWhole?, takeDigits] at h
  | cons c s =>
    have hc : c ≠ ' ' ∧ c ≠ '\t' ∧ c ≠ '\r' ∧ c ≠ '\n' ∧ c ≠ '/' ∧ c ≠ '"' := by
      rcases head_of_takeNumber? h with rfl | hd
      · decide
      · refine ⟨?_, ?_, ?_, ?_, ?_, ?_⟩
        all_goals
          rintro rfl
          simp at hd
    obtain ⟨hspace, htab, hcr, hlf, hslash, hquote⟩ := hc
    have hblank := lexBlank_cons (c := c) (by simp [isSpaceOrTab, hspace, htab]) s
    simp [lexAny, Lexer.orElse, hblank, lexNewline, lexComment, lexBlockComment, lexLineComment,
      lexLiteral, lexString, h, hcr, hlf, hslash, hquote]

theorem lexAny_of_lexes {s rest : List Char} {l : Lexeme} (h : Lexes s l rest) :
    lexAny s = .ok (l, rest) := by
  cases h with
  | blank hne hrun hrest =>
    obtain ⟨ht, hd⟩ := longestRun_eq_iff.mpr ⟨hrun, hrest, rfl⟩
    obtain ⟨c, run, rfl⟩ := List.exists_cons_of_ne_nil hne
    simp only [lexAny, Lexer.orElse, lexBlank]
    rw [ht, hd]
  | lineFeed => rfl
  | carriageReturnLineFeed => rfl
  | carriageReturn hrest =>
    have hn : ∀ t, rest = '\n' :: t → False := by
      rintro t rfl
      exact hrest rfl
    simp [lexAny, Lexer.orElse, lexBlank_cons, isSpaceOrTab, lexNewline]
  | blockComment hcontent =>
    have hu := untilCommentEnd?_append hcontent rest
    simp [lexAny, Lexer.orElse, lexBlank_cons, isSpaceOrTab, lexNewline, lexComment,
      lexBlockComment, hu]
  | lineComment hcontent hend =>
    have hu := untilLineEnd?_append hcontent hend
    simp [lexAny, Lexer.orElse, lexBlank_cons, isSpaceOrTab, lexNewline, lexComment,
      lexBlockComment, lexLineComment, hu]
  | string hbody =>
    simp [lexAny, Lexer.orElse, lexBlank_cons, isSpaceOrTab, lexNewline, lexComment,
      lexBlockComment, lexLineComment, lexLiteral, lexString, readBody_append hbody]
  | number hsource => exact lexAny_of_takeNumber? hsource
  | trueWord => rfl
  | falseWord => rfl
  | nullWord => rfl
  | delimiter d => cases d <;> rfl

/-- What is read at the front of a text is fixed by the grammar. -/
theorem lexAny_eq_ok_iff {s rest : List Char} {l : Lexeme} :
    lexAny s = .ok (l, rest) ↔ Lexes s l rest :=
  ⟨lexes_of_lexAny, lexAny_of_lexes⟩

/-! ## Texts that grow -/

namespace Lexes

theorem length_lt {s rest : List Char} {l : Lexeme} (h : Lexes s l rest) :
    rest.length < s.length :=
  (lexAny_advances (lexAny_of_lexes h)).2

theorem ne_nil {s rest : List Char} {l : Lexeme} (h : Lexes s l rest) : s ≠ [] := by
  rintro rfl
  have := h.length_lt
  simp at this

theorem unique {s rest rest' : List Char} {l l' : Lexeme} (h : Lexes s l rest)
    (h' : Lexes s l' rest') : l = l' ∧ rest = rest' := by
  have heq := (lexAny_of_lexes h).symm.trans (lexAny_of_lexes h')
  simpa using heq

/-- The first character tells the kind of a lexeme. -/
theorem kind_eq {c : Char} {s rest : List Char} {l : Lexeme} (h : Lexes (c :: s) l rest) :
    l.kind = Lexeme.kindOfHead c := by
  generalize hs : c :: s = text at h
  cases h with
  | blank hne hrun hrest =>
    obtain ⟨d, run, rfl⟩ := List.exists_cons_of_ne_nil hne
    obtain rfl : c = d := (List.cons.inj hs).1
    have hc := hrun c (by simp)
    simp only [isSpaceOrTab, Bool.or_eq_true, beq_iff_eq] at hc
    rcases hc with rfl | rfl <;> rfl
  | number hsource =>
    subst hs
    rcases head_of_takeNumber? hsource with rfl | hd
    · rfl
    · exact (Lexeme.kindOfHead_of_isDigit hd).symm
  | delimiter d =>
    obtain rfl := (List.cons.inj hs).1
    exact (Lexeme.kindOfHead_char d).symm
  | _ =>
    obtain rfl := (List.cons.inj hs).1
    rfl

/-- No lexeme begins with a character that could prolong a number other than by a digit. -/
theorem head_ne {c : Char} {s rest : List Char} {l : Lexeme} (h : Lexes (c :: s) l rest) :
    c ≠ '.' ∧ c ≠ 'e' ∧ c ≠ 'E' := by
  generalize hs : c :: s = text at h
  cases h with
  | blank hne hrun hrest =>
    obtain ⟨d, run, rfl⟩ := List.exists_cons_of_ne_nil hne
    obtain rfl : c = d := (List.cons.inj hs).1
    have hc := hrun c (by simp)
    simp only [isSpaceOrTab, Bool.or_eq_true, beq_iff_eq] at hc
    rcases hc with rfl | rfl <;> decide
  | number hsource =>
    subst hs
    rcases head_of_takeNumber? hsource with rfl | hd
    · decide
    · refine ⟨?_, ?_, ?_⟩
      all_goals
        rintro rfl
        simp at hd
  | delimiter d =>
    obtain rfl := (List.cons.inj hs).1
    cases d <;> decide
  | _ =>
    obtain rfl := (List.cons.inj hs).1
    decide

/-- The first lexeme of a prolonged text is of the same kind. -/
theorem kind_eq_of_append {s rest rest' w : List Char} {l l' : Lexeme} (h : Lexes s l rest)
    (h' : Lexes (s ++ w) l' rest') : l'.kind = l.kind := by
  obtain ⟨c, s, rfl⟩ := List.exists_cons_of_ne_nil h.ne_nil
  rw [h.kind_eq, kind_eq h']

/-- The first lexeme of a prolonged text is the same if the next one stands there already, or if a
line break is what the text is prolonged by. -/
theorem append {s rest : List Char} {l : Lexeme} (h : Lexes s l rest) {w : List Char}
    (hrest : rest ≠ [] → ∃ l' rest', Lexes rest l' rest') (hw : rest = [] → ['\r', '\n'] <+: w) :
    Lexes (s ++ w) l (rest ++ w) := by
  have hhead : ∀ c, (rest ++ w).head? = some c → c = '\r' ∨ rest.head? = some c := by
    intro c hc
    cases rest with
    | nil =>
      obtain ⟨t, rfl⟩ := hw rfl
      exact .inl (Option.some.inj hc).symm
    | cons d rest => exact .inr hc
  cases h with
  | blank hne hrun hstops =>
    rw [List.append_assoc]
    refine .blank hne hrun ?_
    intro c hc
    rcases hhead c hc with rfl | hc
    · rfl
    · exact hstops c hc
  | lineFeed => exact .lineFeed
  | carriageReturnLineFeed => exact .carriageReturnLineFeed
  | carriageReturn hlf =>
    refine .carriageReturn ?_
    intro hc
    rcases hhead _ hc with hc | hc
    · simp at hc
    · exact hlf hc
  | blockComment hcontent =>
    have := @Lexes.blockComment _ (rest ++ w) hcontent
    simpa using this
  | lineComment hcontent hend =>
    have hend' : AtLineEnd (rest ++ w) := by
      rcases hend with rfl | hend | ⟨t, rfl⟩
      · exact .inr (.inr (hw rfl))
      · obtain ⟨t, rfl⟩ := List.head?_eq_some_iff.mp hend
        exact .inr (.inl rfl)
      · exact .inr (.inr ⟨t ++ w, by simp⟩)
    have := Lexes.lineComment hcontent hend'
    simpa using this
  | string hbody =>
    have := @Lexes.string _ _ (rest ++ w) hbody
    simpa using this
  | number hsource =>
    refine .number ?_
    cases rest with
    | nil =>
      obtain ⟨t, rfl⟩ := hw rfl
      obtain ⟨-, rfl⟩ := append_of_takeNumber? hsource
      rw [List.append_nil]
      refine takeNumber?_append (numberText_of_takeNumber? hsource).1 ?_
      intro c hc
      obtain rfl : '\r' = c := Option.some.inj hc
      decide
    | cons c rest =>
      obtain ⟨l', rest', hnext⟩ := hrest (List.cons_ne_nil c rest)
      exact takeNumber?_append_of_cons hsource hnext.head_ne w
  | trueWord => exact .trueWord
  | falseWord => exact .falseWord
  | nullWord => exact .nullWord
  | delimiter d => exact .delimiter d

end Lexes

end JsonReader
