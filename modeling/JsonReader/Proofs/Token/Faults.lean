import JsonReader.Proofs.Token.Completion
import JsonReader.Proofs.Token.Spans

/-!
# Spans of faults

A fault tells where it was found, in one of three ways. A lexeme that is refused is blamed as a
whole. Where the text ends too early the stretch is empty. Where no lexeme begins it is one byte
long, whatever character stands there; so it ends inside of a character that takes more bytes.

## Main definitions

* `StopsBehind` says how much of a text a run has read, and what it tells about the rest.

## Main statements

* `stopsBehind_tokensOf`: a run stops in one of these ways.
* `span_of_tokenize_eq_error`: the spans of faults lie in the text, and which of them can be cut out
  of it.
* `not_forall_isValid_stop`: not all of them can.
-/

namespace JsonReader

open String.Pos.Raw (IsValid)

/-- With this result a run over a text stops behind this part of it. A document is read to its end,
and so is a text that ends too early. A rest where no lexeme begins is not read, but a lexeme that
is refused is. -/
inductive StopsBehind (text : List Char) :
    List Char → Except TokenizerError (List LocatedToken) → Prop
  | complete {located : List LocatedToken} : StopsBehind text text (.ok located)
  | tooEarly : StopsBehind text text
      (.error (.unexpectedEnd (.ofLocation (Location.after {} text) (byteCount text))))
  | unreadable {read rest : List Char} {failure : LexFailure} (happ : text = read ++ rest)
      (hrest : rest ≠ []) (hlex : lexAny rest = .error failure) :
      StopsBehind text read (.error
        (.unreadable rest failure (.ofLocation (Location.after {} read) (byteCount read + 1))))
  | refused {before source rest : List Char} {l : Lexeme} {e : TokenizerError}
      (happ : text = before ++ source ++ rest) (hlex : Lexes (source ++ rest) l rest)
      (hfinal : e.Final)
      (hspan : e.span =
        .ofLocation (Location.after {} before) (byteCount (before ++ source))) :
      StopsBehind text (before ++ source) (.error e)

/-- Tokens that were found before do not matter. -/
theorem StopsBehind.map_append {text read : List Char}
    {result : Except TokenizerError (List LocatedToken)} (h : StopsBehind text read result)
    (front : List LocatedToken) : StopsBehind text read (result.map (front ++ ·)) := by
  cases h with
  | complete => exact .complete
  | tooEarly => exact .tooEarly
  | unreadable happ hrest hlex => exact .unreadable happ hrest hlex
  | refused happ hlex hfinal hspan => exact .refused happ hlex hfinal hspan

theorem TokenizerError.final_ofStructure (span : Span) (e : StructureError) :
    (ofStructure span e).Final := by
  cases e <;> trivial

@[simp] theorem TokenizerError.span_ofStructure (span : Span) (e : StructureError) :
    (ofStructure span e).span = span := by
  cases e <;> rfl

/-- The place where a run stops is the one behind the part that it has read. By induction on the
scan, one lexeme after the other. -/
theorem stopsBehind_tokensOf (settings : TokenizerSettings) (st : Structure)
    (before s : List Char) :
    ∃ read, StopsBehind (before ++ s) read
        (tokensOf settings (scan s).unread st (Location.after {} before) (scan s).pieces).1 ∧
      (tokensOf settings (scan s).unread st (Location.after {} before) (scan s).pieces).2 =
        Location.after {} read := by
  fun_induction scan s generalizing st before with
  | case1 =>
    refine ⟨before, ?_, rfl⟩
    rw [tokensOf, endOfScan, List.append_nil]
    split
    · exact .complete
    · simpa using @StopsBehind.tooEarly before
  | case2 s _ l rest hlex _ ih =>
    obtain ⟨source, rfl⟩ := (lexAny_advances hlex).1
    have hsource : (source ++ rest).take ((source ++ rest).length - rest.length) = source := by simp
    have hnext := (Location.after_append {} before source).symm
    have hoffset : (Location.after {} (before ++ source)).offset =
        byteCount (before ++ source) := by simp
    rw [Scan.pieces_cons, Scan.unread_cons, hsource]
    rw [← List.append_assoc]
    rcases l.admitted_or settings with hadmitted | ⟨content, rfl, hrefused⟩
    · cases haccept : st.accept settings l with
      | error e =>
        rw [tokensOf_cons_eq_of_error hadmitted haccept, hnext, hoffset]
        exact ⟨_, .refused rfl (lexes_of_lexAny hlex) (TokenizerError.final_ofStructure _ e)
          (TokenizerError.span_ofStructure _ e), rfl⟩
      | ok found =>
        obtain ⟨out, st'⟩ := found
        rw [tokensOf_cons_eq_of_accept hadmitted haccept, hnext]
        obtain ⟨read, hstops, hlast⟩ := ih st' (before ++ source)
        exact ⟨read, hstops.map_append _, hlast⟩
    · rw [tokensOf_cons_eq_of_refused rfl hrefused, hnext, hoffset]
      exact ⟨_, .refused rfl (lexes_of_lexAny hlex) trivial rfl, rfl⟩
  | case3 s hs failure hlex =>
    refine ⟨before, ?_, rfl⟩
    rw [tokensOf, endOfScan, Location.offset_after]
    simpa using @StopsBehind.unreadable (before ++ s) _ _ _ rfl hs hlex

/-! ## Character boundaries -/

section
variable {text : String} {before behind : List Char}

/-- A character begins behind every part of a text. -/
theorem isValid_byteCount (h : text.toList = before ++ behind) :
    IsValid text ⟨byteCount before⟩ := by
  refine String.Pos.Raw.isValid_iff_exists_take_toList.mpr ⟨before.length, ?_⟩
  rw [h, List.take_left', utf8ByteSize_ofList]
  rfl

theorem byteCount_le_utf8ByteSize (h : text.toList = before ++ behind) :
    byteCount before ≤ text.utf8ByteSize := by
  rw [utf8ByteSize_eq_byteCount, h, byteCount_append]
  omega

/-- One byte on, a character begins only if the one that stands there takes one byte. -/
theorem isValid_byteCount_add_one_iff {c : Char} (h : text.toList = before ++ c :: behind) :
    IsValid text ⟨byteCount before + 1⟩ ↔ c.utf8Size = 1 := by
  have hpos := c.utf8Size_pos
  constructor
  · intro hvalid
    obtain ⟨i, hi⟩ := String.Pos.Raw.isValid_iff_exists_take_toList.mp hvalid
    rw [utf8ByteSize_ofList, h, List.take_append, byteCount_append] at hi
    change byteCount before + 1 = _ at hi
    -- The characters before the boundary are some of those before `c`, or all of them and `c`.
    rcases Nat.lt_or_ge before.length i with hlt | hge
    · obtain ⟨k, hk⟩ := Nat.exists_eq_succ_of_ne_zero (Nat.sub_ne_zero_of_lt hlt)
      rw [List.take_of_length_le (Nat.le_of_lt hlt), hk, List.take_succ_cons, byteCount_cons] at hi
      omega
    · have hparts := congrArg byteCount (List.take_append_drop i before)
      rw [byteCount_append] at hparts
      rw [Nat.sub_eq_zero_of_le hge, List.take_zero, byteCount_nil] at hi
      omega
  · intro hsize
    have hnext := @isValid_byteCount text (before ++ [c]) behind (by simpa using h)
    rwa [byteCount_append, byteCount_cons, hsize] at hnext

end

/-! ## Spans -/

/-- The stretch that is blamed for a fault lies in the text and begins with a character. It also
ends where a character ends, unless no lexeme begins there and the character that stands there takes
more than one byte. -/
theorem span_of_tokenize_eq_error {settings : TokenizerSettings} {text : String}
    {e : TokenizerError} (h : tokenize settings text = .error e) :
    (e.span.start ≤ e.span.stop ∧ e.span.stop ≤ text.utf8ByteSize ∧
        IsValid text ⟨e.span.start⟩) ∧
      (IsValid text ⟨e.span.stop⟩ ↔
        ∀ c rest failure span, e = .unreadable (c :: rest) failure span → c.utf8Size = 1) := by
  obtain ⟨read, hstops, -⟩ := stopsBehind_tokensOf settings {} [] text.toList
  rw [List.nil_append] at hstops
  change StopsBehind text.toList read (tokenize settings text) at hstops
  rw [h] at hstops
  cases hstops with
  | tooEarly =>
    have hend : text.toList = text.toList ++ [] := (List.append_nil _).symm
    have hle := byteCount_le_utf8ByteSize hend
    have hvalid := isValid_byteCount hend
    simpa [TokenizerError.span, Span.ofLocation] using ⟨hle, hvalid⟩
  | @unreadable _ rest failure happ hrest hlex =>
    obtain ⟨c, rest, rfl⟩ := List.exists_cons_of_ne_nil hrest
    have hpos := c.utf8Size_pos
    have hle := @byteCount_le_utf8ByteSize text (read ++ [c]) rest (by simpa using happ)
    rw [byteCount_append, byteCount_cons] at hle
    have hstart := isValid_byteCount happ
    have hstop := isValid_byteCount_add_one_iff happ
    simp only [TokenizerError.span, Span.ofLocation, Location.offset_after, Nat.zero_add]
    refine ⟨⟨by omega, by omega, hstart⟩, hstop.trans ?_⟩
    constructor
    · rintro hsize _ _ _ _ he
      cases he
      exact hsize
    · intro hall
      exact hall c rest failure _ rfl
  | @refused before source rest l _ happ _ hfinal hspan =>
    have hle := byteCount_le_utf8ByteSize happ
    have hstart := @isValid_byteCount text before (source ++ rest) (by simpa using happ)
    have hstop := isValid_byteCount happ
    rw [hspan]
    simp only [Span.ofLocation, Location.offset_after, Nat.zero_add]
    refine ⟨⟨by simp, hle, hstart⟩, iff_of_true hstop ?_⟩
    rintro c rest failure span rfl
    exact absurd hfinal id

/-- No lexeme begins with an `é`, which takes two bytes. -/
theorem span_of_tokenize_accented :
    tokenize {} "[é]" = .error (.unreadable ['é', ']']
        [⟨0, .tag⟩, ⟨0, .alt⟩, ⟨0, .context "delimiter"⟩, ⟨0, .alt⟩] ⟨1, 2, 1, 2⟩) ∧
      IsValid "[é]" ⟨1⟩ ∧ ¬ IsValid "[é]" ⟨2⟩ := by
  have h : tokenize {} "[é]" = .error (.unreadable ['é', ']']
      [⟨0, .tag⟩, ⟨0, .alt⟩, ⟨0, .context "delimiter"⟩, ⟨0, .alt⟩] ⟨1, 2, 1, 2⟩) := by
    decide +kernel
  obtain ⟨⟨-, -, hstart⟩, hstop⟩ := span_of_tokenize_eq_error h
  refine ⟨h, hstart, ?_⟩
  intro hvalid
  have hsize := hstop.mp hvalid _ _ _ _ rfl
  revert hsize
  decide

/-- Not every fault is blamed on whole characters. -/
theorem not_forall_isValid_stop :
    ¬ ∀ settings text e, tokenize settings text = .error e →
      e.span.start ≤ e.span.stop ∧ e.span.stop ≤ text.utf8ByteSize ∧
        IsValid text ⟨e.span.start⟩ ∧ IsValid text ⟨e.span.stop⟩ := by
  intro h
  have hfault : tokenize {} "é" = .error (.unreadable ['é']
      [⟨0, .tag⟩, ⟨0, .alt⟩, ⟨0, .context "delimiter"⟩, ⟨0, .alt⟩] ⟨0, 1, 1, 1⟩) := by
    decide +kernel
  obtain ⟨-, -, -, hstop⟩ := h {} "é" _ hfault
  revert hstop
  decide

end JsonReader
