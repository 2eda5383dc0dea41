import JsonReader.Proofs.Lexeme.Scan
import JsonReader.Token.Tokenizer

/-!
# Runs of the tokenizer

A run takes the document structure over whole lexemes, from one state to another, and leaves a rest
of the text. Where the lexemes stand plays no part in it. Whether a text is tokenized, and which
fault is reported, can be read off such a run: the text is tokenized if the run takes all of it to a
state where the document is complete, and otherwise the fault is explained by the place where the
run ends.

## Main definitions

* `Reads` is a run over a part of a text, `Accepts` one over a whole text.
* `TokenizerError.Explains` says what a fault tells about the place where it is found.

## Main statements

* `tokensOf_cons_eq_ok`, `tokensFrom_append_eq_ok`: the first step of a run that comes to tokens.
* `exists_tokenize_eq_ok_iff`: a text is tokenized exactly if a run accepts it.
* `explains_of_tokenize_eq_error`: a fault is explained by the place where the run ends.
-/

namespace JsonReader

/-- Results can be compared, so that a run on a given text can be checked. -/
instance decidableEqResult {ε α : Type} [DecidableEq ε] [DecidableEq α] :
    DecidableEq (Except ε α)
  | .ok a, .ok b => decidable_of_iff (a = b) (by simp)
  | .error e, .error f => decidable_of_iff (e = f) (by simp)
  | .ok _, .error _ | .error _, .ok _ => isFalse nofun

/-- Comments count only if the settings allow them. -/
def Lexeme.Admitted (settings : TokenizerSettings) : Lexeme → Prop
  | comment _ => settings.allowComments = true
  | _ => True

theorem Lexeme.admitted_or (settings : TokenizerSettings) (l : Lexeme) :
    l.Admitted settings ∨ ∃ content, l = comment content ∧ settings.allowComments = false := by
  cases l with
  | comment content =>
    cases h : settings.allowComments with
    | true => exact .inl h
    | false => exact .inr ⟨content, rfl, rfl⟩
  | _ => exact .inl trivial

/-- Whole lexemes at the front of a text take one state to another and yield tokens. -/
inductive Reads (settings : TokenizerSettings) :
    Structure → List Char → List Token → Structure → List Char → Prop
  | here {st : Structure} {s : List Char} : Reads settings st s [] st s
  | step {st st' last : Structure} {s rest left : List Char} {l : Lexeme} {out : Option Token}
      {ts : List Token} (hlex : Lexes s l rest) (hadmitted : l.Admitted settings)
      (haccept : st.accept settings l = .ok (out, st'))
      (hrest : Reads settings st' rest ts last left) :
      Reads settings st s (out.toList ++ ts) last left

/-- A run takes all of the text and completes the document. -/
def Accepts (settings : TokenizerSettings) (st : Structure) (s : List Char) (ts : List Token) :
    Prop :=
  ∃ last, Reads settings st s ts last [] ∧ last.expected = .done

/-- What a fault tells about the state that a run has come to and about the text that is left. -/
def TokenizerError.Explains (settings : TokenizerSettings) (st : Structure) (s : List Char) :
    TokenizerError → Prop
  | unreadable rest failure _ => s ≠ [] ∧ rest = s ∧ lexAny s = .error failure
  | misplaced expected found _ =>
    ∃ l rest, Lexes s l rest ∧ l.Admitted settings ∧
      st.accept settings l = .error (.misplaced expected found)
  | unexpectedEnd _ => s = [] ∧ st.expected ≠ .done
  | tooDeep limit _ =>
    ∃ l rest, Lexes s l rest ∧ l.Admitted settings ∧ st.accept settings l = .error (.tooDeep limit)
  | commentRefused _ =>
    ∃ content rest, Lexes s (.comment content) rest ∧ settings.allowComments = false

/-- What becomes of a text that begins in a state and at a place. -/
def tokensFrom (settings : TokenizerSettings) (st : Structure) (here : Location) (s : List Char) :
    Except TokenizerError (List LocatedToken) :=
  (tokensOf settings (scan s).unread st here (scan s).pieces).1

theorem tokenize_eq_tokensFrom (settings : TokenizerSettings) (text : String) :
    tokenize settings text = tokensFrom settings {} {} text.toList := rfl

/-! ## One piece -/

section
variable {settings : TokenizerSettings} {unread : Option (List Char × LexFailure)}
  {st st' : Structure} {piece : Piece}

/-- A comment that is refused ends the run behind it. -/
theorem tokensOf_cons_eq_of_refused {content : String} (hlexeme : piece.lexeme = .comment content)
    (hrefused : settings.allowComments = false) (here : Location) (pieces : List Piece) :
    tokensOf settings unread st here (piece :: pieces) =
      (.error (.commentRefused (.ofLocation here (here.after piece.source).offset)),
        here.after piece.source) := by
  rw [tokensOf]
  split
  · rfl
  · next hne => exact absurd hrefused (hne content hlexeme)

/-- A piece that is not accepted ends the run behind it. -/
theorem tokensOf_cons_eq_of_error {e : StructureError} (hadmitted : piece.lexeme.Admitted settings)
    (haccept : st.accept settings piece.lexeme = .error e) (here : Location)
    (pieces : List Piece) :
    tokensOf settings unread st here (piece :: pieces) =
      (.error (.ofStructure (.ofLocation here (here.after piece.source).offset) e),
        here.after piece.source) := by
  rw [tokensOf]
  split
  · next hlexeme hcomments =>
    rw [hlexeme, Lexeme.Admitted, hcomments] at hadmitted
    simp at hadmitted
  · rw [haccept]

/-- A piece that is accepted adds its token, if it is one, to those of the pieces behind it. -/
theorem tokensOf_cons_eq_of_accept {out : Option Token}
    (hadmitted : piece.lexeme.Admitted settings)
    (haccept : st.accept settings piece.lexeme = .ok (out, st')) (here : Location)
    (pieces : List Piece) :
    tokensOf settings unread st here (piece :: pieces) =
      (tokensOf settings unread st' (here.after piece.source) pieces).map
        (·.map (out.toList.map (⟨·, .ofLocation here (here.after piece.source).offset⟩) ++ ·))
        id := by
  rw [tokensOf]
  split
  · next hlexeme hcomments =>
    rw [hlexeme, Lexeme.Admitted, hcomments] at hadmitted
    simp at hadmitted
  · rw [haccept]
    cases out with
    | none =>
      show _ = Prod.map (Except.map id) id _
      rw [Except.map_id]
      rfl
    | some token => rfl

theorem tokensOf_cons_of_refused {content : String} (hlexeme : piece.lexeme = .comment content)
    (hrefused : settings.allowComments = false) (here : Location) (pieces : List Piece) :
    (tokensOf settings unread st here (piece :: pieces)).1 =
      .error (.commentRefused (.ofLocation here (here.after piece.source).offset)) := by
  rw [tokensOf_cons_eq_of_refused hlexeme hrefused]

theorem tokensOf_cons_of_error {e : StructureError} (hadmitted : piece.lexeme.Admitted settings)
    (haccept : st.accept settings piece.lexeme = .error e) (here : Location)
    (pieces : List Piece) :
    (tokensOf settings unread st here (piece :: pieces)).1 =
      .error (.ofStructure (.ofLocation here (here.after piece.source).offset) e) := by
  rw [tokensOf_cons_eq_of_error hadmitted haccept]

theorem tokensOf_cons_of_accept {out : Option Token} (hadmitted : piece.lexeme.Admitted settings)
    (haccept : st.accept settings piece.lexeme = .ok (out, st')) (here : Location)
    (pieces : List Piece) :
    (tokensOf settings unread st here (piece :: pieces)).1 =
      (tokensOf settings unread st' (here.after piece.source) pieces).1.map
        (out.toList.map (⟨·, .ofLocation here (here.after piece.source).offset⟩) ++ ·) := by
  rw [tokensOf_cons_eq_of_accept hadmitted haccept, Prod.map_fst]

/-- A run that comes to tokens has accepted its first piece. -/
theorem tokensOf_cons_eq_ok {here : Location} {pieces : List Piece} {located : List LocatedToken}
    (h : (tokensOf settings unread st here (piece :: pieces)).1 = .ok located) :
    piece.lexeme.Admitted settings ∧ ∃ out st' later,
      st.accept settings piece.lexeme = .ok (out, st') ∧
      (tokensOf settings unread st' (here.after piece.source) pieces).1 = .ok later ∧
      located =
        out.toList.map (⟨·, .ofLocation here (here.after piece.source).offset⟩) ++ later := by
  rcases piece.lexeme.admitted_or settings with hadmitted | ⟨content, hlexeme, hrefused⟩
  · refine ⟨hadmitted, ?_⟩
    cases haccept : st.accept settings piece.lexeme with
    | error e => simp [tokensOf_cons_of_error hadmitted haccept] at h
    | ok found =>
      obtain ⟨out, st'⟩ := found
      rw [tokensOf_cons_of_accept hadmitted haccept] at h
      cases hlater : (tokensOf settings unread st' (here.after piece.source) pieces).1 with
      | error e => simp [hlater, Except.map] at h
      | ok later =>
        simp only [hlater, Except.map, Except.ok.injEq] at h
        exact ⟨out, st', later, rfl, hlater, h.symm⟩
  · simp [tokensOf_cons_of_refused hlexeme hrefused] at h

end

/-! ## One lexeme -/

theorem scan_of_lexes {s rest : List Char} {l : Lexeme} (h : Lexes s l rest) :
    scan s = (scan rest).cons ⟨l, s.take (s.length - rest.length)⟩ := by
  have hlex := lexAny_of_lexes h
  rw [scan, if_neg h.ne_nil]
  split
  · next hok =>
    rw [hlex] at hok
    cases hok
    rfl
  · next herror =>
    rw [hlex] at herror
    simp at herror

theorem scan_of_lexAny_eq_error {s : List Char} {failure : LexFailure} (hs : s ≠ [])
    (h : lexAny s = .error failure) : scan s = ⟨[], some (s, failure)⟩ := by
  rw [scan, if_neg hs]
  split
  · next hok =>
    rw [h] at hok
    simp at hok
  · next herror =>
    rw [h] at herror
    cases herror
    rfl

section
variable {settings : TokenizerSettings} {st st' : Structure} {s rest : List Char} {l : Lexeme}

theorem tokensFrom_nil (here : Location) :
    tokensFrom settings st here [] =
      if st.expected = .done then .ok []
      else .error (.unexpectedEnd (.ofLocation here here.offset)) := by
  simp only [tokensFrom, scan_nil, tokensOf, endOfScan]

theorem tokensFrom_of_unreadable {failure : LexFailure} (hs : s ≠ [])
    (h : lexAny s = .error failure) (here : Location) :
    tokensFrom settings st here s =
      .error (.unreadable s failure (.ofLocation here (here.offset + 1))) := by
  rw [tokensFrom, scan_of_lexAny_eq_error hs h, tokensOf, endOfScan]

theorem tokensFrom_of_refused {content : String} (hlex : Lexes s (.comment content) rest)
    (hrefused : settings.allowComments = false) (here : Location) :
    ∃ span, tokensFrom settings st here s = .error (.commentRefused span) := by
  rw [tokensFrom, scan_of_lexes hlex, Scan.pieces_cons]
  exact ⟨_, tokensOf_cons_of_refused rfl hrefused here _⟩

theorem tokensFrom_of_error {e : StructureError} (hlex : Lexes s l rest)
    (hadmitted : l.Admitted settings) (haccept : st.accept settings l = .error e)
    (here : Location) : ∃ span, tokensFrom settings st here s = .error (.ofStructure span e) := by
  rw [tokensFrom, scan_of_lexes hlex, Scan.pieces_cons]
  exact ⟨_, tokensOf_cons_of_error hadmitted haccept here _⟩

/-- A lexeme that is accepted adds its token, if it is one, to those of the text behind it. -/
theorem tokensFrom_append_of_accept {source : List Char} {out : Option Token}
    (hlex : Lexes (source ++ rest) l rest) (hadmitted : l.Admitted settings)
    (haccept : st.accept settings l = .ok (out, st')) (here : Location) :
    tokensFrom settings st here (source ++ rest) =
      (tokensFrom settings st' (here.after source) rest).map
        (out.toList.map (⟨·, .ofLocation here (here.after source).offset⟩) ++ ·) := by
  have hsource : (source ++ rest).take ((source ++ rest).length - rest.length) = source := by simp
  rw [tokensFrom, scan_of_lexes hlex, Scan.pieces_cons, Scan.unread_cons, hsource,
    tokensOf_cons_of_accept hadmitted haccept]
  rfl

theorem tokensFrom_of_accept {out : Option Token} (hlex : Lexes s l rest)
    (hadmitted : l.Admitted settings) (haccept : st.accept settings l = .ok (out, st'))
    (here : Location) :
    ∃ span next, tokensFrom settings st here s =
      (tokensFrom settings st' next rest).map (out.toList.map (⟨·, span⟩) ++ ·) := by
  obtain ⟨source, rfl⟩ := (lexAny_advances (lexAny_of_lexes hlex)).1
  exact ⟨_, _, tokensFrom_append_of_accept hlex hadmitted haccept here⟩

/-- A run that comes to tokens takes the lexeme at the front of the text. -/
theorem tokensFrom_append_eq_ok {source : List Char} {located : List LocatedToken}
    {here : Location} (hlex : Lexes (source ++ rest) l rest)
    (h : tokensFrom settings st here (source ++ rest) = .ok located) :
    l.Admitted settings ∧ ∃ out st' later, st.accept settings l = .ok (out, st') ∧
      tokensFrom settings st' (here.after source) rest = .ok later ∧
      located =
        out.toList.map (⟨·, .ofLocation here (here.after source).offset⟩) ++ later := by
  have hsource : (source ++ rest).take ((source ++ rest).length - rest.length) = source := by simp
  rw [tokensFrom, scan_of_lexes hlex, Scan.pieces_cons, Scan.unread_cons, hsource] at h
  exact tokensOf_cons_eq_ok h

theorem Accepts.step {out : Option Token} {ts : List Token} (hlex : Lexes s l rest)
    (hadmitted : l.Admitted settings) (haccept : st.accept settings l = .ok (out, st'))
    (h : Accepts settings st' rest ts) : Accepts settings st s (out.toList ++ ts) := by
  obtain ⟨last, hrest, hdone⟩ := h
  exact ⟨last, .step hlex hadmitted haccept hrest, hdone⟩

theorem Accepts.skip {ts : List Token} (hlex : Lexes s l rest) (hadmitted : l.Admitted settings)
    (haccept : st.accept settings l = .ok (none, st')) (h : Accepts settings st' rest ts) :
    Accepts settings st s ts :=
  Accepts.step hlex hadmitted haccept h

theorem Accepts.emit {t : Token} {ts : List Token} (hlex : Lexes s l rest)
    (hadmitted : l.Admitted settings) (haccept : st.accept settings l = .ok (some t, st'))
    (h : Accepts settings st' rest ts) : Accepts settings st s (t :: ts) :=
  Accepts.step hlex hadmitted haccept h

/-- A run that accepts a text takes its first lexeme. -/
theorem Accepts.of_lexes {ts : List Token} (h : Accepts settings st s ts) (hlex : Lexes s l rest) :
    l.Admitted settings ∧ ∃ out st' ts', st.accept settings l = .ok (out, st') ∧
      ts = out.toList ++ ts' ∧ Accepts settings st' rest ts' := by
  obtain ⟨last, hreads, hdone⟩ := h
  cases hreads with
  | here => exact absurd rfl hlex.ne_nil
  | step hlex' hadmitted haccept hrest =>
    obtain ⟨rfl, rfl⟩ := hlex.unique hlex'
    exact ⟨hadmitted, _, _, _, haccept, rfl, last, hrest, hdone⟩

end

/-! ## Whole texts -/

/-- A result is right about the run that begins in a state: tokens are those of the run, and a fault
is explained where the run ends. -/
def RightAbout (settings : TokenizerSettings) (st : Structure) (s : List Char) :
    Except TokenizerError (List LocatedToken) → Prop
  | .ok located => Accepts settings st s (located.map (·.token))
  | .error e => ∃ ts last left, Reads settings st s ts last left ∧ e.Explains settings last left

theorem RightAbout.step {settings : TokenizerSettings} {st st' : Structure} {s rest : List Char}
    {l : Lexeme} {out : Option Token} {result : Except TokenizerError (List LocatedToken)}
    (hlex : Lexes s l rest) (hadmitted : l.Admitted settings)
    (haccept : st.accept settings l = .ok (out, st')) (h : RightAbout settings st' rest result)
    (span : Span) :
    RightAbout settings st s (result.map (out.toList.map (⟨·, span⟩) ++ ·)) := by
  cases result with
  | ok located =>
    have hstep := Accepts.step hlex hadmitted haccept h
    simpa [RightAbout, Except.map, Function.comp_def] using hstep
  | error e =>
    obtain ⟨ts, last, left, hreads, he⟩ := h
    exact ⟨_, last, left, .step hlex hadmitted haccept hreads, he⟩

/-- Every result is right, by induction on the length of the text. -/
theorem rightAbout_tokensFrom (settings : TokenizerSettings) (s : List Char) (st : Structure)
    (here : Location) : RightAbout settings st s (tokensFrom settings st here s) := by
  induction hn : s.length using Nat.strongRecOn generalizing s st here with
  | ind n ih =>
    subst hn
    by_cases hs : s = []
    · subst hs
      rw [tokensFrom_nil]
      split
      · next hdone => exact ⟨st, .here, hdone⟩
      · next hdone => exact ⟨[], st, [], .here, rfl, hdone⟩
    cases hlexAny : lexAny s with
    | error failure =>
      rw [tokensFrom_of_unreadable hs hlexAny]
      exact ⟨[], st, s, .here, hs, rfl, hlexAny⟩
    | ok found =>
      obtain ⟨l, rest⟩ := found
      have hlex := lexes_of_lexAny hlexAny
      rcases l.admitted_or settings with hadmitted | ⟨content, rfl, hrefused⟩
      · cases haccept : st.accept settings l with
        | error e =>
          obtain ⟨span, hresult⟩ := tokensFrom_of_error hlex hadmitted haccept here
          rw [hresult]
          cases e <;> exact ⟨[], st, s, .here, l, rest, hlex, hadmitted, haccept⟩
        | ok next =>
          obtain ⟨out, st'⟩ := next
          obtain ⟨span, next, hresult⟩ := tokensFrom_of_accept hlex hadmitted haccept here
          rw [hresult]
          exact .step hlex hadmitted haccept
            (ih rest.length (lexAny_advances hlexAny).2 rest st' next rfl) span
      · obtain ⟨span, hresult⟩ := tokensFrom_of_refused hlex hrefused here
        rw [hresult]
        exact ⟨[], st, s, .here, content, rest, hlex, hrefused⟩

/-- A text that is accepted is tokenized, by induction on its run. -/
theorem exists_tokensFrom_of_accepts {settings : TokenizerSettings} {st : Structure}
    {s : List Char} {ts : List Token} (h : Accepts settings st s ts) (here : Location) :
    ∃ located, tokensFrom settings st here s = .ok located ∧ located.map (·.token) = ts := by
  obtain ⟨last, hreads, hdone⟩ := h
  generalize hleft : [] = left at hreads
  induction hreads generalizing here with
  | here =>
    subst hleft
    exact ⟨[], by rw [tokensFrom_nil, if_pos hdone], rfl⟩
  | @step _ _ _ _ _ _ _ out _ hlex hadmitted haccept _ ih =>
    obtain ⟨span, next, hresult⟩ := tokensFrom_of_accept hlex hadmitted haccept here
    obtain ⟨located, hlocated, hmap⟩ := ih next hdone hleft
    refine ⟨out.toList.map (⟨·, span⟩) ++ located, by rw [hresult, hlocated]; rfl, ?_⟩
    simp [Function.comp_def, hmap]

/-- A text is tokenized exactly if a run accepts it, and the tokens are those of the run. -/
theorem exists_tokenize_eq_ok_iff {settings : TokenizerSettings} {text : String}
    {ts : List Token} :
    (∃ located, tokenize settings text = .ok located ∧ located.map (·.token) = ts) ↔
      Accepts settings {} text.toList ts := by
  constructor
  · rintro ⟨located, hlocated, rfl⟩
    have h := rightAbout_tokensFrom settings text.toList {} {}
    rwa [← tokenize_eq_tokensFrom, hlocated] at h
  · intro h
    exact exists_tokensFrom_of_accepts h {}

/-- A fault is explained by the place where the run ends. -/
theorem explains_of_tokenize_eq_error {settings : TokenizerSettings} {text : String}
    {e : TokenizerError} (h : tokenize settings text = .error e) :
    ∃ ts last left, Reads settings {} text.toList ts last left ∧ e.Explains settings last left := by
  have hright := rightAbout_tokensFrom settings text.toList {} {}
  rwa [← tokenize_eq_tokensFrom, h] at hright

end JsonReader
