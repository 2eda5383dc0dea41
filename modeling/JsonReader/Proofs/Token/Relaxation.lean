import JsonReader.Proofs.Token.Run

/-!
# Relaxed settings

Settings that allow more than others do no harm: a text that is tokenized under the strict settings
is tokenized alike under the relaxed ones, and most faults stay as they are.

Two runs over the same lexemes are compared step by step. Their states have the same open
containers. What may come next differs only behind a comma, where the relaxed settings may let the
container end; so the one fault that can disappear in this way is a bracket that closes a container
right behind a comma.

## Main definitions

* `TokenizerSettings.RelaxedBy` compares settings.
* `Structure.LoosenedTo` relates the states of the two runs.
* `ClosesBehindComma` says that a fault stands at such a bracket.

## Main statements

* `Structure.LoosenedTo.accept_ok`, `Structure.LoosenedTo.accept_misplaced`: one lexeme.
* `agrees_tokensOf`: a whole run.
* `tokenize_of_relaxedBy`: what becomes of a text under relaxed settings.
-/

namespace JsonReader

/-- What the first settings allow the second ones allow too. -/
structure TokenizerSettings.RelaxedBy (strict relaxed : TokenizerSettings) : Prop where
  comments : strict.allowComments = true → relaxed.allowComments = true
  trailingCommas : strict.allowTrailingCommas = true → relaxed.allowTrailingCommas = true
  maxDepth_le : strict.maxDepth ≤ relaxed.maxDepth

theorem TokenizerSettings.RelaxedBy.admitted {strict relaxed : TokenizerSettings}
    (hr : strict.RelaxedBy relaxed) {l : Lexeme} (h : l.Admitted strict) : l.Admitted relaxed := by
  cases l with
  | comment content => exact hr.comments h
  | _ => trivial

/-! ## Behind a comma -/

/-- A lexeme that the structure takes no notice of. -/
def Lexeme.isTrivia : Lexeme → Bool
  | comment _ | blank | newline => true
  | literal _ | delimiter _ => false

/-- A bracket or a brace that closes a container. -/
def Lexeme.isCloser : Lexeme → Bool
  | delimiter .closeBrace | delimiter .closeBracket => true
  | _ => false

/-- The last of the pieces is a comma, trivia aside. -/
def EndsInComma (pieces : List Piece) : Prop :=
  ((pieces.map (·.lexeme)).filter (!·.isTrivia)).getLast? = some (.delimiter .comma)

theorem endsInComma_append (pieces : List Piece) (piece : Piece) :
    EndsInComma (pieces ++ [piece]) ↔
      if piece.lexeme.isTrivia then EndsInComma pieces else piece.lexeme = .delimiter .comma := by
  by_cases h : piece.lexeme.isTrivia = true <;> simp [EndsInComma, List.filter_append, h]

/-- The place behind the pieces of a text. -/
def placeBehind (pieces : List Piece) : Location := Location.after {} (pieces.flatMap Piece.source)

/-- The stretch of a piece that stands behind others. -/
def spanBehind (pieces : List Piece) (piece : Piece) : Span :=
  .ofLocation (placeBehind pieces) (placeBehind (pieces ++ [piece])).offset

/-- One of the pieces closes a container right behind a comma, trivia aside, and the span is the
stretch of that piece. -/
def ClosesBehindComma (pieces : List Piece) (span : Span) : Prop :=
  ∃ before piece rest, pieces = before ++ piece :: rest ∧ span = spanBehind before piece ∧
    piece.lexeme.isCloser = true ∧ EndsInComma before

/-! ## One lexeme -/

/-- The states of two runs over the same lexemes, the second one under relaxed settings. Behind a
comma the second one may let the container end. -/
inductive Structure.LoosenedTo (comma : Prop) : Structure → Structure → Prop
  | refl (st : Structure) : LoosenedTo comma st st
  | key (hcomma : comma) (stack : List Container) :
      LoosenedTo comma ⟨stack, .key⟩ ⟨stack, .keyOrEnd⟩
  | value (hcomma : comma) (stack : List Container) :
      LoosenedTo comma ⟨stack, .value⟩ ⟨stack, .valueOrEnd⟩

namespace Structure

variable {strict relaxed : TokenizerSettings} {st st' next : Structure} {comma : Prop}

theorem LoosenedTo.expected_done_iff (h : LoosenedTo comma st st') :
    st'.expected = .done ↔ st.expected = .done := by
  cases h <;> simp

theorem loosenedTo_afterComma (hr : strict.RelaxedBy relaxed) (stack : List Container) :
    LoosenedTo True ⟨stack, afterComma strict stack⟩ ⟨stack, afterComma relaxed stack⟩ := by
  cases hs : strict.allowTrailingCommas with
  | true =>
    rw [afterComma, afterComma, hs, hr.trailingCommas hs]
    exact .refl _
  | false =>
    cases hl : relaxed.allowTrailingCommas with
    | false =>
      rw [afterComma, afterComma, hs, hl]
      exact .refl _
    | true =>
      rw [afterComma, afterComma, hs, hl]
      rcases stack with _ | ⟨_ | _, stack⟩
      · exact .value trivial _
      · exact .key trivial _
      · exact .value trivial _

theorem enter_of_relaxedBy (hr : strict.RelaxedBy relaxed) {c : Container} {e : Expected}
    {t : Token} {out : Option Token} (h : st.enter strict c e t = .ok (out, next)) :
    st.enter relaxed c e t = .ok (out, next) := by
  rw [enter] at h ⊢
  split at h
  · simp at h
  · have := hr.maxDepth_le
    rwa [if_neg (by omega)]

theorem enter_ne_misplaced {c : Container} {e expected : Expected} {t : Token} {found : String} :
    st.enter strict c e t ≠ .error (.misplaced expected found) := by
  rw [enter]
  split <;> simp

namespace LoosenedTo

theorem acceptLiteral_ok (h : LoosenedTo comma st st') {l : Literal} {out : Option Token}
    (haccept : st.acceptLiteral l = .ok (out, next)) : st'.acceptLiteral l = .ok (out, next) := by
  cases h with
  | refl st => exact haccept
  | value hcomma stack => exact haccept
  | key hcomma stack =>
    cases l with
    | string name => exact haccept
    | _ => simp [acceptLiteral, reject] at haccept

theorem acceptDelimiter_ok (hr : strict.RelaxedBy relaxed) (h : LoosenedTo comma st st')
    {d : Delimiter} {out : Option Token}
    (haccept : st.acceptDelimiter strict d = .ok (out, next)) :
    ∃ next', st'.acceptDelimiter relaxed d = .ok (out, next') ∧
      LoosenedTo (d = .comma) next next' := by
  cases h with
  | refl st =>
    obtain ⟨stack, e⟩ := st
    cases d with
    | comma =>
      cases e with
      | commaOrEnd =>
        cases haccept
        exact ⟨_, rfl, by simpa using loosenedTo_afterComma hr stack⟩
      | _ => simp [acceptDelimiter, reject] at haccept
    | openBrace | openBracket =>
      refine ⟨next, ?_, .refl _⟩
      cases e with
      | value | valueOrEnd => exact enter_of_relaxedBy hr haccept
      | _ => simp [acceptDelimiter, reject] at haccept
    | _ =>
      -- Neither the limit nor trailing commas matter for the others.
      refine ⟨next, ?_, .refl _⟩
      cases e <;> exact haccept
  | key hcomma stack => cases d <;> simp [acceptDelimiter, reject] at haccept
  | value hcomma stack =>
    refine ⟨next, ?_, .refl _⟩
    cases d with
    | openBrace | openBracket => exact enter_of_relaxedBy hr haccept
    | _ => simp [acceptDelimiter, reject] at haccept

/-- What is taken in a state is taken in the loosened one, as the same token. -/
theorem accept_ok (hr : strict.RelaxedBy relaxed) (h : LoosenedTo comma st st') {l : Lexeme}
    {out : Option Token} (haccept : st.accept strict l = .ok (out, next)) :
    ∃ next', st'.accept relaxed l = .ok (out, next') ∧
      LoosenedTo (if l.isTrivia then comma else l = .delimiter .comma) next next' := by
  cases l with
  | literal l => exact ⟨next, h.acceptLiteral_ok haccept, .refl _⟩
  | delimiter d => simpa [accept, Lexeme.isTrivia] using h.acceptDelimiter_ok hr haccept
  | _ =>
    cases haccept
    exact ⟨st', rfl, by simpa [Lexeme.isTrivia] using h⟩

/-- What is misplaced in a state is misplaced in the loosened one, unless it closes a container
behind a comma. -/
theorem accept_misplaced (h : LoosenedTo comma st st') {l : Lexeme}
    (hcloser : l.isCloser = true → ¬ comma) {expected : Expected} {found : String}
    (haccept : st.accept strict l = .error (.misplaced expected found)) :
    ∃ expected', st'.accept relaxed l = .error (.misplaced expected' found) := by
  cases h with
  | refl st =>
    obtain ⟨stack, e⟩ := st
    cases l with
    | delimiter d =>
      cases d with
      | comma => cases e <;> cases haccept <;> exact ⟨_, rfl⟩
      | openBrace | openBracket =>
        cases e with
        | value | valueOrEnd => exact absurd haccept enter_ne_misplaced
        | _ => exact ⟨_, haccept⟩
      | _ => cases e <;> exact ⟨_, haccept⟩
    | _ => exact ⟨_, haccept⟩
  | key hcomma stack =>
    cases l with
    | literal l => cases l <;> cases haccept <;> exact ⟨_, rfl⟩
    | delimiter d =>
      cases d with
      | closeBrace => exact absurd hcomma (hcloser rfl)
      | _ =>
        cases haccept
        exact ⟨_, rfl⟩
    | _ => cases haccept
  | value hcomma stack =>
    cases l with
    | delimiter d =>
      cases d with
      | closeBracket => exact absurd hcomma (hcloser rfl)
      | openBrace | openBracket => exact absurd haccept enter_ne_misplaced
      | _ =>
        cases haccept
        exact ⟨_, rfl⟩
    | _ => cases haccept

end LoosenedTo

end Structure

/-! ## Whole runs -/

/-- What the result under strict settings tells about the one under relaxed settings. A misplaced
lexeme that closes a container behind a comma tells nothing, and neither do a container that is too
deep and a comment that is refused. -/
def Agrees (pieces : List Piece) (result' : Except TokenizerError (List LocatedToken)) :
    Except TokenizerError (List LocatedToken) → Prop
  | .ok located => result' = .ok located
  | .error (.unreadable rest failure span) => result' = .error (.unreadable rest failure span)
  | .error (.unexpectedEnd span) => result' = .error (.unexpectedEnd span)
  | .error (.misplaced _ found span) =>
    ¬ ClosesBehindComma pieces span →
      ∃ expected', result' = .error (.misplaced expected' found span)
  | .error (.tooDeep _ _) | .error (.commentRefused _) => True

/-- Tokens that both runs yield before do not matter. -/
theorem Agrees.map_append {pieces : List Piece}
    {result result' : Except TokenizerError (List LocatedToken)} (h : Agrees pieces result' result)
    (before : List LocatedToken) :
    Agrees pieces (result'.map (before ++ ·)) (result.map (before ++ ·)) := by
  cases result with
  | ok located =>
    obtain rfl : result' = .ok located := h
    rfl
  | error e =>
    cases e with
    | unreadable rest failure span =>
      obtain rfl : result' = .error (.unreadable rest failure span) := h
      rfl
    | unexpectedEnd span =>
      obtain rfl : result' = .error (.unexpectedEnd span) := h
      rfl
    | misplaced expected found span =>
      intro hcloses
      obtain ⟨expected', rfl⟩ := h hcloses
      exact ⟨expected', rfl⟩
    | tooDeep limit span => trivial
    | commentRefused span => trivial

section
variable {strict relaxed : TokenizerSettings}

/-- By induction on the pieces that are left: the states of the two runs agree up to a comma. -/
theorem agrees_tokensOf (hr : strict.RelaxedBy relaxed) (unread : Option (List Char × LexFailure))
    (read rest : List Piece) {st st' : Structure} (h : st.LoosenedTo (EndsInComma read) st') :
    Agrees (read ++ rest) (tokensOf relaxed unread st' (placeBehind read) rest).1
      (tokensOf strict unread st (placeBehind read) rest).1 := by
  induction rest generalizing read st st' with
  | nil =>
    simp only [tokensOf, endOfScan, h.expected_done_iff]
    split
    · rfl
    · split <;> rfl
  | cons piece rest ih =>
    have hnext : (placeBehind read).after piece.source = placeBehind (read ++ [piece]) := by
      simp [placeBehind]
    rcases piece.lexeme.admitted_or strict with hadmitted | ⟨content, hlexeme, hrefused⟩
    · cases haccept : st.accept strict piece.lexeme with
      | ok found =>
        obtain ⟨out, next⟩ := found
        obtain ⟨next', haccept', hloose⟩ := h.accept_ok hr haccept
        rw [← endsInComma_append] at hloose
        rw [tokensOf_cons_of_accept hadmitted haccept,
          tokensOf_cons_of_accept (hr.admitted hadmitted) haccept', hnext, List.append_cons]
        exact (ih (read ++ [piece]) hloose).map_append _
      | error e =>
        rw [tokensOf_cons_of_error hadmitted haccept]
        cases e with
        | tooDeep limit => trivial
        | misplaced expected found =>
          intro hcloses
          have hcloser : piece.lexeme.isCloser = true → ¬ EndsInComma read := by
            intro hcloser hcomma
            exact hcloses ⟨read, piece, rest, rfl, by rw [spanBehind, hnext], hcloser, hcomma⟩
          obtain ⟨expected', haccept'⟩ := h.accept_misplaced hcloser haccept
          exact ⟨expected', tokensOf_cons_of_error (hr.admitted hadmitted) haccept' _ _⟩
    · rw [tokensOf_cons_of_refused hlexeme hrefused]
      trivial

/-- What becomes of a text under settings that allow more. A document stays one, with the same
tokens at the same places. A place where no lexeme begins and a text that ends too early are reported
alike. So is a misplaced lexeme, up to the account of what was expected, unless it closes a container
behind a comma. -/
theorem tokenize_of_relaxedBy (hr : strict.RelaxedBy relaxed) (text : String) :
    (∀ located, tokenize strict text = .ok located → tokenize relaxed text = .ok located) ∧
      (∀ rest failure span, tokenize strict text = .error (.unreadable rest failure span) →
        tokenize relaxed text = .error (.unreadable rest failure span)) ∧
      (∀ span, tokenize strict text = .error (.unexpectedEnd span) →
        tokenize relaxed text = .error (.unexpectedEnd span)) ∧
      ∀ expected found span, tokenize strict text = .error (.misplaced expected found span) →
        ¬ ClosesBehindComma (scan text.toList).pieces span →
        ∃ expected', tokenize relaxed text = .error (.misplaced expected' found span) := by
  have h : Agrees (scan text.toList).pieces (tokenize relaxed text) (tokenize strict text) :=
    agrees_tokensOf hr (scan text.toList).unread [] (scan text.toList).pieces (.refl {})
  refine ⟨?_, ?_, ?_, ?_⟩
  · intro located hstrict
    rwa [hstrict] at h
  · intro rest failure span hstrict
    rwa [hstrict] at h
  · intro span hstrict
    rwa [hstrict] at h
  · intro expected found span hstrict
    rwa [hstrict] at h

end

/-- Settings that allow both extensions, and one container more than usual. -/
def generousSettings : TokenizerSettings :=
  { allowComments := true, allowTrailingCommas := true, maxDepth := defaultMaxDepth + 1 }

theorem relaxedBy_generousSettings : ({} : TokenizerSettings).RelaxedBy generousSettings :=
  ⟨fun _ => rfl, fun _ => rfl, by decide⟩

/-- Behind the comma an item is expected under strict settings, and an item or the end of the array
under generous ones. -/
theorem tokenize_generousSettings :
    tokenize generousSettings "[1]" = .ok [⟨.arrayStart, ⟨0, 1, 1, 1⟩⟩, ⟨.number "1", ⟨1, 2, 1, 2⟩⟩,
        ⟨.arrayEnd, ⟨2, 3, 1, 3⟩⟩] ∧
      tokenize generousSettings "[1,@" = .error (.unreadable ['@']
        [⟨0, .tag⟩, ⟨0, .alt⟩, ⟨0, .context "delimiter"⟩, ⟨0, .alt⟩] ⟨3, 4, 1, 4⟩) ∧
      tokenize generousSettings "[1," = .error (.unexpectedEnd ⟨3, 3, 1, 4⟩) ∧
      ∃ expected', tokenize generousSettings "[1,:" =
        .error (.misplaced expected' ":" ⟨3, 4, 1, 4⟩) := by
  have hclosers : ∀ piece ∈ (scan "[1,:".toList).pieces, piece.lexeme.isCloser = false := by
    decide +kernel
  have hcloses : ¬ ClosesBehindComma (scan "[1,:".toList).pieces ⟨3, 4, 1, 4⟩ := by
    rintro ⟨before, piece, rest, happ, -, hcloser, -⟩
    have hno := hclosers piece (happ ▸ List.mem_append_right before List.mem_cons_self)
    rw [hno] at hcloser
    simp at hcloser
  have h := tokenize_of_relaxedBy relaxedBy_generousSettings
  refine ⟨(h _).1 _ (by decide +kernel), (h _).2.1 _ _ _ (by decide +kernel),
    (h _).2.2.1 _ (by decide +kernel), ?_⟩
  exact (h _).2.2.2 .value ":" _ (by decide +kernel) hcloses

end JsonReader
