import JsonReader.Proofs.Lexeme.LineBreaks
import JsonReader.Proofs.Token.Places
import JsonReader.Proofs.Token.Run

/-!
# Tokens and the choice of line breaks

Whether a text breaks its lines by LF or by CR LF makes no difference to its tokens and to their
lines and columns. Offsets differ, since every CR takes a byte; but a CR only takes a column at the
end of its line, and no token begins there before the LF.

## Main definitions

* `seen?` is what a result shows of the tokens: what they are, their lines and columns.

## Main statements

* `Location.place_after_withCarriageReturns`: both forms of a part of a text end at the same place.
* `seen?_tokenize_withCarriageReturns`: both forms of a text show the same.
-/

namespace JsonReader

/-- The line and the column behind both forms of a part of a text are the same, wherever its bytes
lie. -/
theorem Location.place_after_withCarriageReturns {p q : Location} (h : p.place = q.place)
    (s : List Char) : (p.after (withCarriageReturns s)).place = (q.after s).place := by
  rw [withCarriageReturns_eq_withBreaks]
  induction s generalizing p q with
  | nil => exact h
  | cons c s ih =>
    obtain ⟨hline, hcolumn⟩ := Prod.mk.inj h
    by_cases hc : c = '\n'
    · subst hc
      have hstep : ((p.step '\r').step '\n').place = (q.step '\n').place := by
        simp [step, place, hline]
      exact ih hstep
    · have hstep : (p.step c).place = (q.step c).place := by
        simp [step, place, hc, hline, hcolumn]
      rw [withBreaks_cons hc]
      exact ih hstep

/-! ## One lexeme -/

section
variable {settings : TokenizerSettings}

theorem Lexeme.admitted_withBreaks {b : LineBreak} {l : Lexeme} :
    (l.withBreaks b).Admitted settings ↔ l.Admitted settings := by
  cases l <;> rfl

theorem Structure.accept_withBreaks (st : Structure) (b : LineBreak) (l : Lexeme) :
    st.accept settings (l.withBreaks b) = st.accept settings l := by
  cases l <;> rfl

/-- The tokens with their lines and columns, if the text is tokenized at all. -/
def seen? (result : Except TokenizerError (List LocatedToken)) :
    Option (List (Token × Nat × Nat)) :=
  result.toOption.map (·.map fun t => (t.token, t.place))

theorem seen?_map {result : Except TokenizerError (List LocatedToken)}
    (front : List LocatedToken) :
    seen? (result.map (front ++ ·)) =
      (seen? result).map (front.map (fun t => (t.token, t.place)) ++ ·) := by
  cases result with
  | error e => rfl
  | ok located => simp [seen?, Except.map, Except.toOption]

/-- A lexeme that is accepted shows at the place where it begins. -/
theorem seen?_tokensFrom_of_accept {st st' : Structure} {source rest : List Char} {l : Lexeme}
    {out : Option Token} (hlex : Lexes (source ++ rest) l rest) (hadmitted : l.Admitted settings)
    (haccept : st.accept settings l = .ok (out, st')) (here : Location) :
    seen? (tokensFrom settings st here (source ++ rest)) =
      (seen? (tokensFrom settings st' (here.after source) rest)).map
        (out.toList.map (·, here.place) ++ ·) := by
  rw [tokensFrom_append_of_accept hlex hadmitted haccept, seen?_map, List.map_map]
  rfl

/-- A lexeme that is refused or not accepted leaves nothing to show. -/
theorem seen?_tokensFrom_of_fault {st : Structure} {s rest : List Char} {l : Lexeme}
    (hlex : Lexes s l rest)
    (hfault : ¬ l.Admitted settings ∨ ∃ e, st.accept settings l = .error e) (here : Location) :
    seen? (tokensFrom settings st here s) = none := by
  rcases l.admitted_or settings with hadmitted | ⟨content, rfl, hrefused⟩
  · obtain ⟨e, haccept⟩ := hfault.resolve_left (not_not_intro hadmitted)
    obtain ⟨span, hresult⟩ := tokensFrom_of_error hlex hadmitted haccept here
    rw [hresult]
    rfl
  · obtain ⟨span, hresult⟩ := tokensFrom_of_refused hlex hrefused here
    rw [hresult]
    rfl

theorem seen?_tokensFrom_of_unreadable {s : List Char} (hs : s ≠ [])
    (hlex : ¬ ∃ l rest, Lexes s l rest) (st : Structure) (here : Location) :
    seen? (tokensFrom settings st here s) = none := by
  cases h : lexAny s with
  | error failure =>
    rw [tokensFrom_of_unreadable hs h]
    rfl
  | ok found => exact absurd ⟨_, _, lexes_of_lexAny h⟩ hlex

end

/-! ## Whole texts -/

/-- From the same state and from the same line and column on, both forms of a text show the same. By
induction on the length of the text: the lexeme at the front of both forms is taken or is at fault
in both, and the places behind it agree. -/
theorem seen?_tokensFrom_withCarriageReturns (settings : TokenizerSettings) {s : List Char}
    (hs : '\r' ∉ s) (st : Structure) {here here' : Location} (hplace : here'.place = here.place) :
    seen? (tokensFrom settings st here' (withCarriageReturns s)) =
      seen? (tokensFrom settings st here s) := by
  induction hn : s.length using Nat.strongRecOn generalizing s st here here' with
  | ind n ih =>
    subst hn
    by_cases hnil : s = []
    · subst hnil
      rw [withCarriageReturns_eq_withBreaks, withBreaks_nil, tokensFrom_nil, tokensFrom_nil]
      split <;> rfl
    by_cases hlexes : ∃ l rest, Lexes s l rest
    · obtain ⟨l, rest, hlex⟩ := hlexes
      have hlex' := lexes_withCarriageReturns hs hlex
      rw [Lexeme.withCarriageReturns_eq_withBreaks] at hlex'
      by_cases hadmitted : l.Admitted settings
      · cases haccept : st.accept settings l with
        | error e =>
          have haccept' := (st.accept_withBreaks .pair l).trans haccept
          rw [seen?_tokensFrom_of_fault hlex (.inr ⟨e, haccept⟩),
            seen?_tokensFrom_of_fault hlex' (.inr ⟨e, haccept'⟩)]
        | ok found =>
          obtain ⟨out, st'⟩ := found
          obtain ⟨source, rfl⟩ := (lexAny_advances (lexAny_of_lexes hlex)).1
          have hrest : '\r' ∉ rest := fun hmem => hs (List.mem_append_right source hmem)
          have hnext := Location.place_after_withCarriageReturns hplace source
          have haccept' := (st.accept_withBreaks .pair l).trans haccept
          have happ : withCarriageReturns (source ++ rest) =
              withCarriageReturns source ++ withCarriageReturns rest :=
            withBreaks_append (b := .pair) source rest
          rw [happ] at hlex' ⊢
          rw [seen?_tokensFrom_of_accept hlex hadmitted haccept,
            seen?_tokensFrom_of_accept hlex' (Lexeme.admitted_withBreaks.mpr hadmitted) haccept',
            ih rest.length hlex.length_lt hrest st' hnext rfl, hplace]
      · have hadmitted' := mt (Lexeme.admitted_withBreaks (b := .pair)).mp hadmitted
        rw [seen?_tokensFrom_of_fault hlex (.inl hadmitted),
          seen?_tokensFrom_of_fault hlex' (.inl hadmitted')]
    · have hlexes' : ¬ ∃ l rest, Lexes (withCarriageReturns s) l rest := by
        rintro ⟨l', rest', hlex'⟩
        exact hlexes (exists_lexes_of_withCarriageReturns hs hlex')
      have hnil' : withCarriageReturns s ≠ [] := withBreaks_ne_nil (b := .pair) hnil
      rw [seen?_tokensFrom_of_unreadable hnil hlexes,
        seen?_tokensFrom_of_unreadable hnil' hlexes']

/-- A text without CR is tokenized with LF exactly if it is tokenized with CR LF, and then the
tokens are the same, each with the same line and column. -/
theorem seen?_tokenize_withCarriageReturns (settings : TokenizerSettings) {text : String}
    (h : '\r' ∉ text.toList) :
    seen? (tokenize settings (String.ofList (withCarriageReturns text.toList))) =
      seen? (tokenize settings text) := by
  rw [tokenize_eq_tokensFrom, tokenize_eq_tokensFrom, String.toList_ofList]
  exact seen?_tokensFrom_withCarriageReturns settings h {} rfl

/-- An array with a line break behind a line comment and one in a block comment. -/
def brokenArray : String := "[1, // one\n/*\n*/ 2]"

theorem seen?_tokenize_brokenArray :
    '\r' ∉ brokenArray.toList ∧
      String.ofList (withCarriageReturns brokenArray.toList) = "[1, // one\r\n/*\r\n*/ 2]" ∧
      seen? (tokenize { allowComments := true }
          (String.ofList (withCarriageReturns brokenArray.toList))) =
        some [(.arrayStart, 1, 1), (.number "1", 1, 2), (.number "2", 3, 4),
          (.arrayEnd, 3, 5)] := by
  have hbreaks : '\r' ∉ brokenArray.toList := by decide
  refine ⟨hbreaks, by decide, ?_⟩
  rw [seen?_tokenize_withCarriageReturns _ hbreaks]
  decide +kernel

end JsonReader
