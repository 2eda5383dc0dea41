import JsonReader.Proofs.Token.LineBreaks
import JsonReader.Proofs.Token.Spans
import Mathlib.Data.List.Forall2

/-!
# Tokens in texts with CR by itself

A CR by itself is a lexeme as the other line breaks are, but it does not begin a line: all tokens of
a text with such breaks stand on line 1. It does not end a line comment either, so a text with a
line comment that has a line behind it is no document any more.

## Main definitions

* `BreaksComment` says that a line comment of a text ends at a LF.
* `Unbroken` relates a token to the one in the text with CR.

## Main statements

* `Location.after_withBreaks_lone`: the place behind a text without LF.
* `tokensFrom_withBreaks_lone`: what becomes of a text that is tokenized with LF.
* `tokenize_withBreaks_lone`: which texts show the same with CR.
* `not_forall_seen?_withBreaks_lone`: not all texts do.
-/

namespace JsonReader

/-- A line comment ends at a LF, at the front of the text or behind other lexemes. -/
inductive BreaksComment : List Char → Prop
  | here {s rest : List Char} (h : EndsAtLineFeed s rest) : BreaksComment s
  | behind {s rest : List Char} {l : Lexeme} (hlex : Lexes s l rest) (h : BreaksComment rest) :
      BreaksComment s

theorem not_breaksComment_nil : ¬ BreaksComment [] := by
  intro h
  cases h with
  | here h =>
    obtain ⟨content, t, -, -, hs⟩ := h
    simp at hs
  | behind hlex _ => exact hlex.ne_nil rfl

/-- The line comment is the lexeme at the front of the text. -/
theorem EndsAtLineFeed.lexes {s rest : List Char} (h : EndsAtLineFeed s rest) :
    ∃ l, Lexes s l rest := by
  obtain ⟨content, t, hcontent, rfl, rfl⟩ := h
  exact ⟨_, .lineComment hcontent (.inr (.inl rfl))⟩

/-- Behind the first lexeme, it is about the rest of the text. -/
theorem breaksComment_iff {s rest : List Char} {l : Lexeme} (hlex : Lexes s l rest) :
    BreaksComment s ↔ EndsAtLineFeed s rest ∨ BreaksComment rest := by
  constructor
  · intro h
    cases h with
    | here h =>
      obtain ⟨l', hlex'⟩ := h.lexes
      obtain ⟨-, rfl⟩ := hlex.unique hlex'
      exact .inl h
    | behind hlex' h =>
      obtain ⟨-, rfl⟩ := hlex.unique hlex'
      exact .inr h
  · rintro (h | h)
    · exact .here h
    · exact .behind hlex h

/-! ## Places -/

/-- Without LF, a text has one line. -/
theorem Location.after_withBreaks_lone (p : Location) (s : List Char) :
    p.after (withBreaks .lone s) = ⟨p.offset + byteCount s, p.line, p.column + s.length⟩ := by
  induction s generalizing p with
  | nil => rfl
  | cons c s ih =>
    by_cases hc : c = '\n'
    · subst hc
      have hsize : '\r'.utf8Size = '\n'.utf8Size := by decide
      show (p.step '\r').after (withBreaks .lone s) = _
      rw [ih]
      simp [step, byteCount_cons, hsize, Nat.add_assoc, Nat.add_comm 1]
    · rw [withBreaks_cons hc]
      show (p.step c).after (withBreaks .lone s) = _
      rw [ih]
      simp [step, hc, byteCount_cons, Nat.add_assoc, Nat.add_comm 1]

/-- The same token, behind a part of a text and behind that part with CR for every LF. -/
def Unbroken (t t' : LocatedToken) : Prop :=
  ∃ before stop, t.span = .ofLocation (Location.after {} before) stop ∧
    t' = ⟨t.token, .ofLocation (Location.after {} (withBreaks .lone before)) stop⟩

theorem Unbroken.same {t t' : LocatedToken} (h : Unbroken t t') :
    t'.token = t.token ∧ t'.span.start = t.span.start ∧ t'.span.stop = t.span.stop ∧
      t'.span.line = 1 := by
  obtain ⟨before, stop, hspan, rfl⟩ := h
  simp [hspan, Span.ofLocation, Location.after_withBreaks_lone]

/-- The place is the same only on the first line. -/
theorem Unbroken.place_eq_iff {t t' : LocatedToken} (h : Unbroken t t') :
    t'.place = t.place ↔ t.span.line = 1 := by
  obtain ⟨before, stop, hspan, rfl⟩ := h
  simp only [LocatedToken.place, hspan, Span.ofLocation, Location.after_withBreaks_lone,
    Location.line_after, Location.column_after]
  constructor
  · intro hplace
    exact (Prod.mk.inj hplace).1.symm
  · intro hline
    have hnone : '\n' ∉ before := List.count_eq_zero.mp (by omega)
    have hrun : ∀ c ∈ before.reverse, decide (c ≠ '\n') = true := by
      intro c hc
      have hne : c ≠ '\n' := fun heq => hnone (heq ▸ List.mem_reverse.mp hc)
      simpa using hne
    obtain ⟨htake, -⟩ := longestRun_eq_iff.mpr ⟨hrun, stops_nil _, (List.append_nil _).symm⟩
    rw [hline, htake, List.length_reverse]

/-- Of two lists of tokens with this relation, the same is shown only if one line holds them all. -/
theorem map_place_eq_iff_of_unbroken {located located' : List LocatedToken}
    (h : List.Forall₂ Unbroken located located') :
    (located'.map fun t => (t.token, t.place)) = (located.map fun t => (t.token, t.place)) ↔
      ∀ t ∈ located, t.span.line = 1 := by
  induction h with
  | nil => simp
  | cons ht _ ih => simp [ih, ht.same.1, ht.place_eq_iff]

/-! ## Runs -/

/-- What becomes of a text that is tokenized with LF, behind any part of it. By induction on the
length of the text: either the lexeme at its front is the line comment, or it stands at the front of
the other form too and the rest is as the rest of the text. -/
theorem tokensFrom_withBreaks_lone (settings : TokenizerSettings) {s : List Char} (hs : '\r' ∉ s)
    (st : Structure) (before : List Char) {located : List LocatedToken}
    (h : tokensFrom settings st (Location.after {} before) s = .ok located) :
    (BreaksComment s ∧ ∃ rest failure span,
        tokensFrom settings st (Location.after {} (withBreaks .lone before)) (withBreaks .lone s) =
          .error (.unreadable ('/' :: '/' :: rest) failure span)) ∨
      (¬ BreaksComment s ∧ ∃ located',
        tokensFrom settings st (Location.after {} (withBreaks .lone before)) (withBreaks .lone s) =
          .ok located' ∧
        List.Forall₂ Unbroken located located') := by
  induction hn : s.length using Nat.strongRecOn generalizing s st before located with
  | ind n ih =>
    subst hn
    by_cases hnil : s = []
    · subst hnil
      refine .inr ⟨not_breaksComment_nil, ?_⟩
      rw [withBreaks_nil, tokensFrom_nil] at *
      split at h
      · next hdone =>
        cases h
        exact ⟨[], if_pos hdone, .nil⟩
      · simp at h
    cases hlexAny : lexAny s with
    | error failure =>
      rw [tokensFrom_of_unreadable hnil hlexAny] at h
      simp at h
    | ok found =>
      obtain ⟨l, rest⟩ := found
      have hlex := lexes_of_lexAny hlexAny
      rw [breaksComment_iff hlex]
      by_cases hends : EndsAtLineFeed s rest
      · obtain ⟨failure, hfailure⟩ := hends.lexAny_withBreaks
        rw [tokensFrom_of_unreadable (withBreaks_ne_nil hnil) hfailure]
        refine .inl ⟨.inl hends, ?_⟩
        obtain ⟨content, t, -, -, rfl⟩ := hends
        exact ⟨_, _, _, rfl⟩
      obtain ⟨source, rfl⟩ := (lexAny_advances hlexAny).1
      have hlex' := lexes_withBreaks (b := .lone) hs hlex fun _ => hends
      have hrest : '\r' ∉ rest := fun hmem => hs (List.mem_append_right source hmem)
      obtain ⟨hadmitted, out, st', later, haccept, hlater, rfl⟩ := tokensFrom_append_eq_ok hlex h
      rw [← Location.after_append] at hlater
      rw [withBreaks_append] at hlex' ⊢
      rw [tokensFrom_append_of_accept hlex' (Lexeme.admitted_withBreaks.mpr hadmitted)
        ((st.accept_withBreaks .lone l).trans haccept), ← Location.after_append,
        ← withBreaks_append, or_iff_right hends]
      rcases ih rest.length hlex.length_lt hrest st' (before ++ source) hlater rfl with
        ⟨hbreaks, rest', failure, span, hresult⟩ | ⟨hbreaks, later', hresult, hsame⟩
      · rw [hresult]
        exact .inl ⟨hbreaks, rest', failure, span, rfl⟩
      · have hstop : (Location.after {} (withBreaks .lone (before ++ source))).offset =
            ((Location.after {} before).after source).offset := by
          rw [Location.after_withBreaks_lone, ← Location.after_append, Location.offset_after]
        rw [hresult, hstop]
        refine .inr ⟨hbreaks, _, rfl, List.rel_append ?_ hsame⟩
        cases out with
        | none => exact .nil
        | some token => exact .cons ⟨before, _, rfl, rfl⟩ .nil

/-! ## Whole texts -/

/-- A text with LF that is tokenized shows the same with CR by itself exactly if none of its line
comments breaks and all of its tokens stand on the first line. Without such a comment the other text
has the same tokens, and all of them stand on its first line; with one, it is at fault there. -/
theorem tokenize_withBreaks_lone {settings : TokenizerSettings} {text : String}
    {located : List LocatedToken} (h : '\r' ∉ text.toList)
    (hok : tokenize settings text = .ok located) :
    (seen? (tokenize settings (String.ofList (withBreaks .lone text.toList))) =
        seen? (tokenize settings text) ↔
      ¬ BreaksComment text.toList ∧ ∀ t ∈ located, t.span.line = 1) ∧
    (¬ BreaksComment text.toList → ∃ located',
      tokenize settings (String.ofList (withBreaks .lone text.toList)) = .ok located' ∧
        List.Forall₂ (fun t t' => t'.token = t.token ∧ t'.span.start = t.span.start ∧
          t'.span.stop = t.span.stop ∧ t'.span.line = 1) located located') ∧
    (BreaksComment text.toList → ∃ rest failure span,
      tokenize settings (String.ofList (withBreaks .lone text.toList)) =
        .error (.unreadable ('/' :: '/' :: rest) failure span)) := by
  have hother : tokenize settings (String.ofList (withBreaks .lone text.toList)) =
      tokensFrom settings {} (Location.after {} (withBreaks .lone []))
        (withBreaks .lone text.toList) := by
    rw [tokenize_eq_tokensFrom, String.toList_ofList]
    rfl
  rw [hok, hother]
  rcases tokensFrom_withBreaks_lone settings h {} [] hok with
    ⟨hbreaks, rest, failure, span, hresult⟩ | ⟨hbreaks, located', hresult, hsame⟩
  · rw [hresult]
    refine ⟨?_, fun hnot => absurd hbreaks hnot, fun _ => ⟨rest, failure, span, rfl⟩⟩
    simp [seen?, Except.toOption, hbreaks]
  · rw [hresult]
    refine ⟨?_, fun _ => ⟨located', rfl, hsame.imp fun _ _ => Unbroken.same⟩,
      fun hnot => absurd hnot hbreaks⟩
    rw [and_iff_right hbreaks, ← map_place_eq_iff_of_unbroken hsame]
    exact Option.some_inj

/-- Behind the first number of the array, a line comment breaks. -/
theorem breaksComment_brokenArray : BreaksComment brokenArray.toList := by
  have htext : brokenArray.toList = '[' :: '1' :: ',' :: ([' '] ++ '/' :: '/' ::
      ([' ', 'o', 'n', 'e'] ++ ['\n', '/', '*', '\n', '*', '/', ' ', '2', ']'])) := by decide
  have hends : EndsAtLineFeed
      ('/' :: '/' :: ([' ', 'o', 'n', 'e'] ++ ['\n', '/', '*', '\n', '*', '/', ' ', '2', ']']))
      ['\n', '/', '*', '\n', '*', '/', ' ', '2', ']'] := ⟨_, _, by simp, rfl, rfl⟩
  have hblank : ∀ t, Lexes ([' '] ++ '/' :: t) .blank ('/' :: t) :=
    fun t => .blank (by simp) (by simp [isSpaceOrTab]) (stops_cons rfl)
  rw [htext]
  exact .behind (.delimiter .openBracket)
    (.behind (.number rfl) (.behind (.delimiter .comma) (.behind (hblank _) (.here hends))))

/-- With CR by itself, its comment swallows what stands behind it. -/
theorem tokenize_withBreaks_lone_brokenArray :
    '\r' ∉ brokenArray.toList ∧
      tokenize { allowComments := true } brokenArray =
        .ok [⟨.arrayStart, ⟨0, 1, 1, 1⟩⟩, ⟨.number "1", ⟨1, 2, 1, 2⟩⟩,
          ⟨.number "2", ⟨17, 18, 3, 4⟩⟩, ⟨.arrayEnd, ⟨18, 19, 3, 5⟩⟩] ∧
      ∃ rest failure span, tokenize { allowComments := true } "[1, // one\r/*\r*/ 2]" =
        .error (.unreadable ('/' :: '/' :: rest) failure span) := by
  have hreturns : '\r' ∉ brokenArray.toList := by decide
  have hok : tokenize { allowComments := true } brokenArray =
      .ok [⟨.arrayStart, ⟨0, 1, 1, 1⟩⟩, ⟨.number "1", ⟨1, 2, 1, 2⟩⟩,
        ⟨.number "2", ⟨17, 18, 3, 4⟩⟩, ⟨.arrayEnd, ⟨18, 19, 3, 5⟩⟩] := by decide +kernel
  have hform : String.ofList (withBreaks .lone brokenArray.toList) = "[1, // one\r/*\r*/ 2]" := by
    decide
  obtain ⟨-, -, hfault⟩ := tokenize_withBreaks_lone hreturns hok
  rw [hform] at hfault
  exact ⟨hreturns, hok, hfault breaksComment_brokenArray⟩

/-- Not every text shows the same: behind the CR, the number stands on line 1. -/
theorem not_forall_seen?_withBreaks_lone :
    ¬ ∀ settings text located, '\r' ∉ text.toList → tokenize settings text = .ok located →
      seen? (tokenize settings (String.ofList (withBreaks .lone text.toList))) =
        seen? (tokenize settings text) := by
  intro h
  have hok : tokenize {} "\n1" = .ok [⟨.number "1", ⟨1, 2, 2, 1⟩⟩] := by decide +kernel
  have hseen := h {} "\n1" _ (by decide) hok
  rw [hok] at hseen
  revert hseen
  decide +kernel

end JsonReader
