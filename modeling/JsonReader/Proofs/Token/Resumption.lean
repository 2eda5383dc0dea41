import JsonReader.Proofs.Token.Faults

/-!
# Texts one after the other

A run that begins at a place reports the same tokens or the same fault as one that begins at the
start, with spans that are moved by that place: offsets by its offset, lines by the lines before it,
and columns only on the first line, which goes on where the text before has ended. So what a text is
does not depend on the texts before it, not even on those that are at fault.

## Main definitions

* `Location.relocated`, `Span.relocated` and the others move a place, a span, a token or a result.

## Main statements

* `Location.after_eq_relocated`: the place behind a text.
* `tokensOf_relocated`: a run from any place.
* `tokenizeFrom_eq_relocated`: a text from any place, and where its run stops.
-/

namespace JsonReader

/-! ## Moving places -/

/-- The place in a text that begins at `start`. -/
def Location.relocated (start place : Location) : Location :=
  ⟨start.offset + place.offset, start.line + place.line - 1,
    if place.line = 1 then start.column + place.column - 1 else place.column⟩

/-- The span in a text that begins at `start`. -/
def Span.relocated (start : Location) (span : Span) : Span :=
  ⟨start.offset + span.start, start.offset + span.stop, start.line + span.line - 1,
    if span.line = 1 then start.column + span.column - 1 else span.column⟩

/-- The token in a text that begins at `start`. -/
def LocatedToken.relocated (start : Location) (t : LocatedToken) : LocatedToken :=
  ⟨t.token, t.span.relocated start⟩

/-- The fault in a text that begins at `start`. -/
def TokenizerError.relocated (start : Location) : TokenizerError → TokenizerError
  | unreadable rest failure span => unreadable rest failure (span.relocated start)
  | misplaced expected found span => misplaced expected found (span.relocated start)
  | unexpectedEnd span => unexpectedEnd (span.relocated start)
  | tooDeep limit span => tooDeep limit (span.relocated start)
  | commentRefused span => commentRefused (span.relocated start)

/-- The result for a text that begins at `start`. -/
def relocatedResult (start : Location) :
    Except TokenizerError (List LocatedToken) → Except TokenizerError (List LocatedToken)
  | .ok located => .ok (located.map (·.relocated start))
  | .error e => .error (e.relocated start)

@[simp] theorem Span.relocated_ofLocation (start place : Location) (stop : Nat) :
    (ofLocation place stop).relocated start =
      ofLocation (start.relocated place) (start.offset + stop) := rfl

@[simp] theorem TokenizerError.relocated_ofStructure (start : Location) (span : Span)
    (e : StructureError) :
    (ofStructure span e).relocated start = ofStructure (span.relocated start) e := by
  cases e <;> rfl

theorem relocatedResult_map_append (start : Location) (front : List LocatedToken)
    (result : Except TokenizerError (List LocatedToken)) :
    relocatedResult start (result.map (front ++ ·)) =
      (relocatedResult start result).map (front.map (·.relocated start) ++ ·) := by
  cases result with
  | ok located => simp [relocatedResult, Except.map]
  | error e => rfl

namespace Location

/-- Lines and columns count from one. -/
theorem one_le_after (s : List Char) : 1 ≤ (after {} s).line ∧ 1 ≤ (after {} s).column := by
  rw [line_after, column_after]
  exact ⟨Nat.le_add_right 1 _, Nat.le_add_right 1 _⟩

theorem relocated_step {start place : Location} (hline : 1 ≤ place.line)
    (hcolumn : 1 ≤ place.column) (c : Char) :
    (start.relocated place).step c = start.relocated (place.step c) := by
  by_cases hc : c = '\n'
  · simp only [step, relocated, if_pos hc]
    rw [if_neg (by omega)]
    congr 1 <;> omega
  · simp only [step, relocated, if_neg hc]
    congr 1
    · omega
    · split <;> omega

/-- The place behind a text that begins at `start`. By induction on the text from its end on, as the
places of its parts move one after the other. -/
theorem after_eq_relocated (start : Location) (s : List Char) :
    start.after s = start.relocated (after {} s) := by
  generalize hr : s.reverse = r
  obtain rfl : s = r.reverse := by rw [← hr, List.reverse_reverse]
  clear hr
  induction r with
  | nil => simp [relocated]
  | cons c r ih =>
    obtain ⟨hline, hcolumn⟩ := one_le_after r.reverse
    rw [List.reverse_cons, after_append, after_append, ih]
    exact relocated_step hline hcolumn c

end Location

/-! ## Runs from any place -/

/-- A run that begins behind a part of a text is the same wherever the text begins. By induction on
the pieces that are left. -/
theorem tokensOf_relocated (settings : TokenizerSettings)
    (unread : Option (List Char × LexFailure)) (start : Location) (st : Structure)
    (before : List Char) (pieces : List Piece) :
    tokensOf settings unread st (start.after before) pieces =
      (tokensOf settings unread st (Location.after {} before) pieces).map (relocatedResult start)
        start.relocated := by
  induction pieces generalizing st before with
  | nil =>
    rw [start.after_eq_relocated]
    simp only [tokensOf, endOfScan]
    split
    · simp [relocatedResult, TokenizerError.relocated, Location.relocated, Nat.add_assoc]
    · split
      · rfl
      · rfl
  | cons piece pieces ih =>
    have hnext : ∀ place : Location,
        (place.after before).after piece.source = place.after (before ++ piece.source) :=
      fun place => (place.after_append before piece.source).symm
    have hspan : Span.ofLocation (start.after before)
          (start.after (before ++ piece.source)).offset =
        (Span.ofLocation (Location.after {} before)
          (Location.after {} (before ++ piece.source)).offset).relocated start := by
      rw [Span.relocated_ofLocation, ← start.after_eq_relocated]
      simp [Nat.add_assoc]
    rcases piece.lexeme.admitted_or settings with hadmitted | ⟨content, hlexeme, hrefused⟩
    · cases haccept : st.accept settings piece.lexeme with
      | error e =>
        rw [tokensOf_cons_eq_of_error hadmitted haccept,
          tokensOf_cons_eq_of_error hadmitted haccept, hnext, hnext, hspan,
          start.after_eq_relocated (before ++ piece.source)]
        simp [relocatedResult]
      | ok found =>
        obtain ⟨out, st'⟩ := found
        rw [tokensOf_cons_eq_of_accept hadmitted haccept,
          tokensOf_cons_eq_of_accept hadmitted haccept, hnext, hnext, ih, hspan]
        generalize
          tokensOf settings unread st' (Location.after {} (before ++ piece.source)) pieces = run
        obtain ⟨result, last⟩ := run
        simp [relocatedResult_map_append, LocatedToken.relocated, Function.comp_def]
    · rw [tokensOf_cons_eq_of_refused hlexeme hrefused,
        tokensOf_cons_eq_of_refused hlexeme hrefused, hnext, hnext, hspan,
        start.after_eq_relocated (before ++ piece.source)]
      rfl

/-- A text that begins at any place comes to the result that it comes to by itself, moved to that
place. Its run stops behind the part of it that is read when it stands by itself, and from there on
later texts are read. -/
theorem tokenizeFrom_eq_relocated (settings : TokenizerSettings) (start : Location)
    (text : List Char) :
    ∃ read, StopsBehind text read (tokenizeFrom settings {} text).1 ∧
      tokenizeFrom settings start text =
        (relocatedResult start (tokenizeFrom settings {} text).1, start.after read) ∧
      ∀ later, tokenizeEach settings start (text :: later) =
        relocatedResult start (tokenizeFrom settings {} text).1 ::
          tokenizeEach settings (start.after read) later := by
  obtain ⟨read, hstops, hlast⟩ := stopsBehind_tokensOf settings {} [] text
  have hfrom : tokenizeFrom settings start text =
      (relocatedResult start (tokenizeFrom settings {} text).1, start.after read) := by
    have hrun := tokensOf_relocated settings (scan text).unread start {} [] (scan text).pieces
    rw [start.after_eq_relocated read, ← hlast]
    exact hrun
  refine ⟨read, hstops, hfrom, ?_⟩
  intro later
  rw [tokenizeEach, hfrom]

/-- The second text goes on behind the first one, which is at fault. -/
example : tokenizeEach {} {} ["[\n".toList, " 1".toList] =
    [.error (.unexpectedEnd ⟨2, 2, 2, 1⟩), .ok [⟨.number "1", ⟨3, 4, 2, 2⟩⟩]] := by cbv

end JsonReader
