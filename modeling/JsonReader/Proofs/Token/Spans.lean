import JsonReader.Proofs.Token.Run

/-!
# Spans of tokens

The span of a token is the stretch of the text that its lexeme was read from: the bytes before it
are counted, and its line and its column follow from the text before it. What stands between the
tokens is trivia, colons and commas.

Pieces of a text are laid out one behind the other, each at the place behind the text before it.
`Yields` says which of them become tokens and with which spans; all the rest follows from it.

## Main definitions

* `Token.lexeme` is the lexeme that a token is read from, `Lexeme.isSilent` holds of the others.
* `Yields` relates the pieces of a text to the tokens among them.
* `Stretch` places a part of a text, `LocatedToken.FaithfulTo` says that a span tells the truth.

## Main statements

* `Location.line_after`, `Location.column_after`: where a text ends.
* `Lexes.alone`: a lexeme is read from its own text as it is from the whole one.
* `faithful_of_tokenize`: all spans of a text are faithful.
-/

namespace JsonReader

open Grammar

/-! ## Places -/

theorem utf8ByteSize_ofList (s : List Char) : (String.ofList s).utf8ByteSize = byteCount s := by
  induction s with
  | nil => rfl
  | cons c s ih =>
    rw [String.ofList_cons, String.utf8ByteSize_append, String.utf8ByteSize_singleton, ih,
      byteCount_cons]

namespace Location

@[simp] theorem offset_after (p : Location) (s : List Char) :
    (p.after s).offset = p.offset + byteCount s := by
  induction s generalizing p with
  | nil => rfl
  | cons c s ih =>
    have hstep : (p.step c).offset = p.offset + c.utf8Size := by
      rw [step]
      split <;> rfl
    show ((p.step c).after s).offset = _
    rw [ih, hstep, byteCount_cons, Nat.add_assoc]

/-- A line begins behind every line feed. -/
theorem line_after (p : Location) (s : List Char) :
    (p.after s).line = p.line + s.count '\n' := by
  induction s generalizing p with
  | nil => rfl
  | cons c s ih =>
    show ((p.step c).after s).line = _
    rw [ih, List.count_cons, step]
    by_cases hc : c = '\n'
    · simp [hc]
      omega
    · simp [hc]

/-- The column counts the characters behind the last line feed. -/
theorem column_after (s : List Char) :
    (after {} s).column = 1 + (s.reverse.takeWhile (· ≠ '\n')).length := by
  -- The last character decides, so the induction is on the reversed text.
  generalize hr : s.reverse = r
  obtain rfl : s = r.reverse := by rw [← hr, List.reverse_reverse]
  clear hr
  induction r with
  | nil => rfl
  | cons c r ih =>
    rw [List.reverse_cons, after_append]
    show ((after {} r.reverse).step c).column = _
    rw [step]
    by_cases hc : c = '\n'
    · simp [hc]
    · simp [hc, ih]
      omega

end Location

/-! ## Lexemes by themselves -/

/-- A lexeme is read from its own text. -/
theorem Lexes.alone {source rest : List Char} {l : Lexeme} (h : Lexes (source ++ rest) l rest) :
    Lexes source l [] := by
  generalize hs : source ++ rest = s at h
  have hcut : ∀ own : List Char, s = own ++ rest → source = own := by
    rintro own rfl
    exact List.append_cancel_right hs
  cases h with
  | blank hne hrun _ =>
    rw [hcut _ rfl]
    simpa using Lexes.blank hne hrun (stops_nil _)
  | lineFeed =>
    rw [hcut ['\n'] rfl]
    exact .lineFeed
  | carriageReturnLineFeed =>
    rw [hcut ['\r', '\n'] rfl]
    exact .carriageReturnLineFeed
  | carriageReturn _ =>
    rw [hcut ['\r'] rfl]
    exact .carriageReturn (by simp)
  | @blockComment content _ hcontent =>
    rw [hcut ('/' :: '*' :: (content ++ ['*', '/'])) (by simp)]
    exact .blockComment hcontent
  | @lineComment content _ hcontent _ =>
    rw [hcut ('/' :: '/' :: content) (by simp)]
    simpa using Lexes.lineComment hcontent (.inl rfl)
  | @string body text _ hbody =>
    rw [hcut ('"' :: (body ++ ['"'])) (by simp)]
    exact .string hbody
  | @number _ own _ hsource =>
    obtain ⟨-, happ⟩ := append_of_takeNumber? hsource
    rw [hcut own happ.symm]
    refine .number ?_
    have hends : NumberEnds [] := by
      intro c hc
      simp at hc
    simpa using takeNumber?_append (numberText_of_takeNumber? hsource).1 hends
  | trueWord =>
    rw [hcut ['t', 'r', 'u', 'e'] rfl]
    exact .trueWord
  | falseWord =>
    rw [hcut ['f', 'a', 'l', 's', 'e'] rfl]
    exact .falseWord
  | nullWord =>
    rw [hcut ['n', 'u', 'l', 'l'] rfl]
    exact .nullWord
  | delimiter d =>
    rw [hcut [d.char] rfl]
    exact .delimiter d

/-- Every piece of a scan is a lexeme by itself. -/
theorem lexes_of_mem_scan {s : List Char} {piece : Piece} (h : piece ∈ (scan s).pieces) :
    Lexes piece.source piece.lexeme [] := by
  fun_induction scan s with
  | case1 => simp at h
  | case2 s _ lexeme rest hlex _ ih =>
    rcases List.mem_cons.mp h with rfl | h
    · obtain ⟨source, rfl⟩ := (lexAny_advances hlex).1
      simpa using (lexes_of_lexAny hlex).alone
    · exact ih h
  | case3 => simp at h

/-! ## Tokens and lexemes -/

/-- The lexeme that a token is read from. -/
def Token.lexeme : Token → Lexeme
  | objectStart => .delimiter .openBrace
  | objectEnd => .delimiter .closeBrace
  | arrayStart => .delimiter .openBracket
  | arrayEnd => .delimiter .closeBracket
  | propertyName name => .literal (.string name)
  | string text => .literal (.string text)
  | number source => .literal (.number source)
  | bool value => .literal (.bool value)
  | null => .literal .null

/-- A lexeme that becomes no token: white space, a line break, a comment, a colon or a comma. -/
def Lexeme.isSilent : Lexeme → Bool
  | blank | newline | comment _ | delimiter .colon | delimiter .comma => true
  | literal _ | delimiter _ => false

theorem Token.lexeme_ofLiteral (l : Literal) : (Token.ofLiteral l).lexeme = .literal l := by
  cases l <;> rfl

theorem Structure.out_eq_of_enter {settings : TokenizerSettings} {st st' : Structure}
    {c : Container} {e : Expected} {t : Token} {out : Option Token}
    (h : st.enter settings c e t = .ok (out, st')) : out = some t := by
  rw [enter] at h
  split at h
  · simp at h
  · cases h
    rfl

/-- A lexeme that is accepted becomes a token, unless it is silent. -/
theorem Structure.lexeme_of_accept {settings : TokenizerSettings} {st st' : Structure} {l : Lexeme}
    {out : Option Token} (h : st.accept settings l = .ok (out, st')) :
    (out = none ∧ l.isSilent = true) ∨ ∃ t, out = some t ∧ t.lexeme = l := by
  obtain ⟨stack, e⟩ := st
  cases l with
  | literal l =>
    simp only [accept, acceptLiteral] at h
    split at h
    · cases h
      exact .inr ⟨_, rfl, rfl⟩
    · cases h
      exact .inr ⟨_, rfl, rfl⟩
    · cases h
      exact .inr ⟨_, rfl, Token.lexeme_ofLiteral _⟩
    · cases h
      exact .inr ⟨_, rfl, Token.lexeme_ofLiteral _⟩
    · simp [reject] at h
  | delimiter d =>
    simp only [accept, acceptDelimiter] at h
    split at h
    · cases h
      exact .inr ⟨_, rfl, rfl⟩
    · cases h
      exact .inl ⟨rfl, rfl⟩
    · cases h
      exact .inr ⟨_, rfl, rfl⟩
    · exact .inr ⟨_, out_eq_of_enter h, rfl⟩
    · exact .inr ⟨_, out_eq_of_enter h, rfl⟩
    · exact .inr ⟨_, out_eq_of_enter h, rfl⟩
    · exact .inr ⟨_, out_eq_of_enter h, rfl⟩
    · cases h
      exact .inl ⟨rfl, rfl⟩
    · split at h
      · cases h
        exact .inr ⟨_, rfl, rfl⟩
      · simp [reject] at h
    · split at h
      · cases h
        exact .inr ⟨_, rfl, rfl⟩
      · simp [reject] at h
    · simp [reject] at h
  | _ =>
    cases h
    exact .inl ⟨rfl, rfl⟩

/-! ## Pieces and tokens -/

/-- Of the pieces that stand behind a part of a text, the silent ones are dropped, and the others
are tokens with the stretches of the pieces as their spans. -/
inductive Yields : List Char → List Piece → List LocatedToken → Prop
  | nil {before : List Char} : Yields before [] []
  | silent {before : List Char} {piece : Piece} {pieces : List Piece} {located : List LocatedToken}
      (hsilent : piece.lexeme.isSilent = true)
      (h : Yields (before ++ piece.source) pieces located) :
      Yields before (piece :: pieces) located
  | token {before : List Char} {piece : Piece} {pieces : List Piece} {located : List LocatedToken}
      {t : LocatedToken} (hlexeme : t.token.lexeme = piece.lexeme)
      (hspan : t.span =
        .ofLocation (Location.after {} before) (byteCount (before ++ piece.source)))
      (h : Yields (before ++ piece.source) pieces located) :
      Yields before (piece :: pieces) (t :: located)

/-- The tokens of a run are those of its pieces, and nothing is left unread. -/
theorem yields_of_tokensOf {settings : TokenizerSettings}
    {unread : Option (List Char × LexFailure)} {st : Structure} {before : List Char}
    {pieces : List Piece} {located : List LocatedToken}
    (h : (tokensOf settings unread st (Location.after {} before) pieces).1 = .ok located) :
    Yields before pieces located ∧ unread = none := by
  induction pieces generalizing st before located with
  | nil =>
    simp only [tokensOf, endOfScan] at h
    split at h
    · simp at h
    · split at h
      · cases h
        exact ⟨.nil, rfl⟩
      · simp at h
  | cons piece pieces ih =>
    obtain ⟨-, out, st', later, haccept, hlater, rfl⟩ := tokensOf_cons_eq_ok h
    rw [← Location.after_append] at hlater
    obtain ⟨hyields, hunread⟩ := ih hlater
    refine ⟨?_, hunread⟩
    rcases Structure.lexeme_of_accept haccept with ⟨rfl, hsilent⟩ | ⟨t, rfl, ht⟩
    · exact .silent hsilent hyields
    · exact .token ht (by simp) hyields

theorem byteCount_pos {s : List Char} (hs : s ≠ []) : 0 < byteCount s := by
  obtain ⟨c, s, rfl⟩ := List.exists_cons_of_ne_nil hs
  have := c.utf8Size_pos
  rw [byteCount_cons]
  omega

namespace Yields

variable {before : List Char} {pieces : List Piece} {located : List LocatedToken}

/-- No token begins before the pieces do. -/
theorem byteCount_le_start (h : Yields before pieces located) :
    ∀ t ∈ located, byteCount before ≤ t.span.start := by
  induction h with
  | nil => simp
  | @silent before piece pieces located _ _ ih =>
    intro t ht
    have := ih t ht
    rw [byteCount_append] at this
    omega
  | @token before piece pieces located t _ hspan _ ih =>
    intro u hu
    rcases List.mem_cons.mp hu with rfl | hu
    · simp [hspan, Span.ofLocation]
    · have := ih u hu
      rw [byteCount_append] at this
      omega

/-- A token ends before the next one begins. -/
theorem pairwise_stop_le_start (h : Yields before pieces located) :
    located.Pairwise fun t u => t.span.stop ≤ u.span.start := by
  induction h with
  | nil => exact .nil
  | silent _ _ ih => exact ih
  | token _ hspan hrest ih =>
    refine .cons ?_ ih
    intro u hu
    simpa [hspan, Span.ofLocation] using hrest.byteCount_le_start u hu

/-- A token is one of the pieces, at the place behind the text before it. -/
theorem exists_piece (h : Yields before pieces located) {t : LocatedToken} (ht : t ∈ located) :
    ∃ front piece rest, pieces = front ++ piece :: rest ∧ t.token.lexeme = piece.lexeme ∧
      t.span = .ofLocation (Location.after {} (before ++ front.flatMap Piece.source))
        (byteCount (before ++ front.flatMap Piece.source ++ piece.source)) := by
  induction h with
  | nil => simp at ht
  | @silent before piece pieces located _ _ ih =>
    obtain ⟨front, own, rest, rfl, hlexeme, hspan⟩ := ih ht
    exact ⟨piece :: front, own, rest, rfl, hlexeme, by simpa using hspan⟩
  | @token before piece pieces located u hlexeme hspan _ ih =>
    rcases List.mem_cons.mp ht with rfl | ht
    · exact ⟨[], piece, pieces, rfl, hlexeme, by simpa using hspan⟩
    · obtain ⟨front, own, rest, rfl, hlexeme, hspan⟩ := ih ht
      exact ⟨piece :: front, own, rest, rfl, hlexeme, by simpa using hspan⟩

/-- A byte of the pieces that is in no token is in a silent piece, and that piece is apart from all
tokens. -/
theorem exists_silent (h : Yields before pieces located) {b : Nat} (hb : byteCount before ≤ b)
    (hlt : b < byteCount (before ++ pieces.flatMap Piece.source))
    (hno : ∀ t ∈ located, b < t.span.start ∨ t.span.stop ≤ b) :
    ∃ front piece rest, pieces = front ++ piece :: rest ∧ piece.lexeme.isSilent = true ∧
      byteCount (before ++ front.flatMap Piece.source) ≤ b ∧
      b < byteCount (before ++ front.flatMap Piece.source ++ piece.source) ∧
      ∀ t ∈ located,
        byteCount (before ++ front.flatMap Piece.source ++ piece.source) ≤ t.span.start ∨
          t.span.stop ≤ byteCount (before ++ front.flatMap Piece.source) := by
  induction h with
  | nil =>
    simp at hlt
    omega
  | @silent before piece pieces located hsilent hrest ih =>
    by_cases hin : b < byteCount (before ++ piece.source)
    · refine ⟨[], piece, pieces, rfl, hsilent, by simpa using hb, by simpa using hin, ?_⟩
      intro t ht
      exact .inl (by simpa using hrest.byteCount_le_start t ht)
    · obtain ⟨front, own, rest, rfl, hown⟩ := ih (by omega) (by simpa using hlt) hno
      exact ⟨piece :: front, own, rest, rfl, by simpa using hown⟩
  | @token before piece pieces located u _ hspan hrest ih =>
    have hstart : u.span.start = byteCount before := by simp [hspan, Span.ofLocation]
    have hstop : u.span.stop = byteCount (before ++ piece.source) := by
      simp [hspan, Span.ofLocation]
    have hu := hno u List.mem_cons_self
    obtain ⟨front, own, rest, rfl, hsilent, hle, hltown, hapart⟩ :=
      ih (by omega) (by simpa using hlt) fun t ht => hno t (List.mem_cons_of_mem u ht)
    refine ⟨piece :: front, own, rest, rfl, hsilent, by simpa using hle, by simpa using hltown, ?_⟩
    intro t ht
    rcases List.mem_cons.mp ht with rfl | ht
    · refine .inr ?_
      rw [hstop]
      simp
    · simpa using hapart t ht

end Yields

/-! ## Texts -/

/-- The part `source` of the text stands between two offsets, and `before` is the text before it. -/
structure Stretch (text before source : String) (start stop : Nat) : Prop where
  exists_append : ∃ behind, text = before ++ source ++ behind
  start_eq : start = before.utf8ByteSize
  stop_eq : stop = (before ++ source).utf8ByteSize

/-- The span of the token is where `source` stands, behind `before`. That part alone is read as the
lexeme of the token. The line counts the line feeds before it, and the column the characters behind
the last one of these. -/
structure LocatedToken.FaithfulTo (t : LocatedToken) (text before source : String) : Prop where
  stretch : Stretch text before source t.span.start t.span.stop
  lexAny_source : lexAny source.toList = .ok (t.token.lexeme, [])
  line_eq : t.span.line = 1 + before.toList.count '\n'
  column_eq : t.span.column = 1 + (before.toList.reverse.takeWhile (· ≠ '\n')).length

theorem utf8ByteSize_eq_byteCount (text : String) : text.utf8ByteSize = byteCount text.toList := by
  rw [← utf8ByteSize_ofList, String.ofList_toList]

theorem Stretch.stop_le {text before source : String} {start stop : Nat}
    (h : Stretch text before source start stop) : stop ≤ text.utf8ByteSize := by
  obtain ⟨⟨behind, rfl⟩, -, rfl⟩ := h
  rw [String.utf8ByteSize_append (t := behind)]
  omega

section
variable {text : String} {located : List LocatedToken}
  (hyields : Yields [] (scan text.toList).pieces located)
  (hpieces : (scan text.toList).pieces.flatMap Piece.source = text.toList)

include hpieces

/-- A piece stands behind those before it. -/
theorem stretch_of_pieces {front rest : List Piece} {piece : Piece}
    (happ : (scan text.toList).pieces = front ++ piece :: rest) :
    Stretch text (String.ofList (front.flatMap Piece.source)) (String.ofList piece.source)
      (byteCount (front.flatMap Piece.source))
      (byteCount (front.flatMap Piece.source ++ piece.source)) := by
  refine ⟨⟨String.ofList (rest.flatMap Piece.source), ?_⟩, (utf8ByteSize_ofList _).symm, ?_⟩
  · rw [happ, List.flatMap_append, List.flatMap_cons, ← List.append_assoc] at hpieces
    rw [← String.ofList_append, ← String.ofList_append, hpieces, String.ofList_toList]
  · rw [← String.ofList_append, utf8ByteSize_ofList]

include hyields

theorem faithfulTo_of_mem {t : LocatedToken} (ht : t ∈ located) :
    t.span.start < t.span.stop ∧ t.span.stop ≤ text.utf8ByteSize ∧
      ∃ before source, t.FaithfulTo text before source := by
  obtain ⟨front, piece, rest, happ, hlexeme, hspan⟩ := hyields.exists_piece ht
  have hlex : Lexes piece.source piece.lexeme [] :=
    lexes_of_mem_scan (happ ▸ List.mem_append_right front List.mem_cons_self)
  have hstart : t.span.start = byteCount (front.flatMap Piece.source) := by
    simp [hspan, Span.ofLocation]
  have hstop : t.span.stop = byteCount (front.flatMap Piece.source ++ piece.source) := by
    simp [hspan, Span.ofLocation]
  have hstretch := stretch_of_pieces hpieces happ
  rw [← hstart, ← hstop] at hstretch
  refine ⟨?_, hstretch.stop_le, _, _, hstretch, ?_, ?_, ?_⟩
  · have := byteCount_pos hlex.ne_nil
    rw [hstart, hstop, byteCount_append]
    omega
  · rw [String.toList_ofList, hlexeme]
    exact lexAny_of_lexes hlex
  · rw [String.toList_ofList, hspan]
    exact Location.line_after {} _
  · rw [String.toList_ofList, hspan]
    exact Location.column_after _

theorem exists_silent_stretch {b : Nat} (hb : b < text.utf8ByteSize)
    (hno : ∀ t ∈ located, b < t.span.start ∨ t.span.stop ≤ b) :
    ∃ before source start stop l, Stretch text before source start stop ∧
      (start ≤ b ∧ b < stop) ∧ lexAny source.toList = .ok (l, []) ∧ l.isSilent = true ∧
      ∀ t ∈ located, stop ≤ t.span.start ∨ t.span.stop ≤ start := by
  rw [utf8ByteSize_eq_byteCount, ← hpieces] at hb
  obtain ⟨front, piece, rest, happ, hsilent, hle, hlt, hapart⟩ :=
    hyields.exists_silent (Nat.zero_le b) hb hno
  have hlex : Lexes piece.source piece.lexeme [] :=
    lexes_of_mem_scan (happ ▸ List.mem_append_right front List.mem_cons_self)
  refine ⟨_, _, _, _, _, stretch_of_pieces hpieces happ, ⟨hle, hlt⟩, ?_, hsilent, hapart⟩
  rw [String.toList_ofList]
  exact lexAny_of_lexes hlex

end

/-- The tokens of a text stand in order and apart from one another, each with a span that tells the
truth. All other bytes of the text are of white space, line breaks, comments, colons and commas,
each of which stands apart from all tokens. -/
theorem faithful_of_tokenize {settings : TokenizerSettings} {text : String}
    {located : List LocatedToken} (h : tokenize settings text = .ok located) :
    (∀ t ∈ located, t.span.start < t.span.stop ∧ t.span.stop ≤ text.utf8ByteSize ∧
      ∃ before source, t.FaithfulTo text before source) ∧
      (located.Pairwise fun t u => t.span.start < u.span.start ∧ t.span.stop ≤ u.span.start) ∧
      ∀ b < text.utf8ByteSize, (∀ t ∈ located, b < t.span.start ∨ t.span.stop ≤ b) →
        ∃ before source start stop l, Stretch text before source start stop ∧
          (start ≤ b ∧ b < stop) ∧ lexAny source.toList = .ok (l, []) ∧ l.isSilent = true ∧
          ∀ t ∈ located, stop ≤ t.span.start ∨ t.span.stop ≤ start := by
  obtain ⟨hyields, hunread⟩ :
      Yields [] (scan text.toList).pieces located ∧ (scan text.toList).unread = none :=
    yields_of_tokensOf h
  have hpieces : (scan text.toList).pieces.flatMap Piece.source = text.toList := by
    simpa [hunread] using flatMap_source_scan text.toList
  refine ⟨fun t ht => faithfulTo_of_mem hyields hpieces ht, ?_,
    fun b hb hno => exists_silent_stretch hyields hpieces hb hno⟩
  refine hyields.pairwise_stop_le_start.imp_of_mem ?_
  intro t u ht hu hle
  have hlt := (faithfulTo_of_mem hyields hpieces ht).1
  exact ⟨by omega, hle⟩

/-- An array with a comment before it and a line break in it. -/
def commentedArray : String := "/*é*/[1,\n null]"

def commentedArrayTokens : List LocatedToken :=
  [⟨.arrayStart, ⟨6, 7, 1, 6⟩⟩, ⟨.number "1", ⟨7, 8, 1, 7⟩⟩, ⟨.null, ⟨11, 15, 2, 2⟩⟩,
    ⟨.arrayEnd, ⟨15, 16, 2, 6⟩⟩]

/-- The `é` takes two bytes and one column. The byte at offset 3 is in no token. -/
theorem faithful_commentedArray :
    tokenize { allowComments := true } commentedArray = .ok commentedArrayTokens ∧
      (∃ before source,
        LocatedToken.FaithfulTo ⟨.null, ⟨11, 15, 2, 2⟩⟩ commentedArray before source) ∧
      (commentedArrayTokens.Pairwise fun t u =>
        t.span.start < u.span.start ∧ t.span.stop ≤ u.span.start) ∧
      ∃ before source start stop l, Stretch commentedArray before source start stop ∧
        (start ≤ 3 ∧ 3 < stop) ∧ lexAny source.toList = .ok (l, []) ∧ l.isSilent = true ∧
        ∀ t ∈ commentedArrayTokens, stop ≤ t.span.start ∨ t.span.stop ≤ start := by
  have h : tokenize { allowComments := true } commentedArray = .ok commentedArrayTokens := by
    decide +kernel
  obtain ⟨hfaithful, hpairwise, hsilent⟩ := faithful_of_tokenize h
  refine ⟨h, (hfaithful _ ?_).2.2, hpairwise, hsilent 3 (by decide) ?_⟩
  · simp [commentedArrayTokens]
  · simp [commentedArrayTokens]

end JsonReader
