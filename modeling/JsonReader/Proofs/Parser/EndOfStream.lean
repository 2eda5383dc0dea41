import JsonReader.Proofs.Parser.Detection
import JsonReader.Proofs.Parser.LooksAhead

/-!
# Where the end of the tokens is reported

A parser reports the end of the tokens where it wants a token and has none. Mostly that is behind
the last token, and the failure quotes how many there are. But a pattern that looks at the current
token and does not move reports the end as well if there is no current one, which is so before the
first token, however many are ahead. Nothing else does: a failure from further on, and every failure
of a parser that moves onto a token before it looks at it, tells of the end.

## Main definitions

* `ParseError.innermost` is the failure inside all wrappers.

## Main statements

* `TokenPattern.run_eq_endOfStream_iff`: where a pattern reports the end.
* `Parser.Built.endOfStream_of_run`: where any parser does.
* `Parser.not_forall_endOfStream_of_run`: it does so where tokens are left.
-/

namespace JsonReader

/-! ## Failures -/

/-- The failure inside the names of properties and the remarks. -/
def ParseError.innermost : ParseError → ParseError
  | property _ inner | context _ inner => inner.innermost
  | e => e

namespace ParseError

variable {c : Cursor} {e e' : ParseError}

/-- The innermost failure is later by as much as the whole one. -/
theorem Shifted.innermost {asked : String → Prop} {limit n : Nat}
    (h : e.Shifted asked limit n e') : e.innermost.Shifted asked limit n e'.innermost := by
  induction h with
  | endOfStream p => exact .endOfStream p
  | tokenMismatch expected found p => exact .tokenMismatch expected found p
  | conversion target found p => exact .conversion target found p
  | unexpected expected found p => exact .unexpected expected found p
  | rejected found p => exact .rejected found p
  | unknownProperty name => exact .unknownProperty name
  | failed h => exact .failed h
  | tooDeep p => exact .tooDeep p
  | property _ _ ih | context _ _ ih => exact ih

theorem Shifted.of_endOfStream {asked : String → Prop} {limit n k : Nat}
    (h : (ParseError.endOfStream n).Shifted asked limit k e) : e = .endOfStream (n + k) := by
  cases h
  rfl

/-- The end is detected where nothing is ahead or nothing is current, if no such failure is asked
for. -/
theorem Detected.exists_end {asked : ParseError → Prop}
    (hasked : ∀ e, asked e → ∀ n, e.innermost ≠ .endOfStream n) (h : e.Detected asked c) {n : Nat}
    (hn : e.innermost = .endOfStream n) :
    ∃ d, c.LeadsTo d ∧ d.position = n ∧ (d.passed = [] ∨ d.ahead = []) := by
  induction h with
  | @endOfStream d hd hend =>
    cases hn
    exact ⟨d, hd, rfl, hend⟩
  | asked he => exact absurd hn (hasked _ he n)
  | property _ _ ih | context _ _ ih => exact ih hn
  | _ => cases hn

end ParseError

/-- Before the first token, or behind the last one. -/
theorem Cursor.LeadsTo.position_of_end {c d : Cursor} (h : c.LeadsTo d)
    (hend : d.passed = [] ∨ d.ahead = []) :
    d.position = c.tokens.length ∨ d.position = 0 ∧ c.passed = [] := by
  have hposition := h.position_le
  rcases hend with hpassed | hahead
  · have hzero : d.position = 0 := by rw [position, hpassed, List.length_nil]
    refine .inr ⟨hzero, List.length_eq_zero_iff.mp ?_⟩
    rw [position] at hposition
    omega
  · rw [← h.tokens_eq, length_tokens, hahead]
    exact .inl rfl

/-! ## Patterns -/

theorem TokenPattern.check_eq_endOfStream_iff (x : TokenPattern) (c : Cursor) (n : Nat) :
    (x.check c).result = .error (.endOfStream n) ↔ n = c.position ∧ c.passed = [] := by
  obtain ⟨passed, ahead⟩ := c
  cases passed with
  | nil => simp [check, Cursor.kind?, Cursor.token?, Cursor.current?, eq_comm]
  | cons t passed =>
    by_cases hkind : t.token.kind ∈ x.kinds <;>
      simp [check, Cursor.kind?, Cursor.token?, Cursor.current?, hkind]

/-- A pattern reports the end if it moves on and nothing is ahead, or if it does not move and
nothing is current. -/
theorem TokenPattern.run_eq_endOfStream_iff (x : TokenPattern) (s : Settings) (c : Cursor)
    (n : Nat) :
    (x.parser.run s c).result = .error (.endOfStream n) ↔
      n = c.position ∧ (x.advance = true ∧ c.ahead = [] ∨ x.advance = false ∧ c.passed = []) := by
  rw [parser]
  cases hx : x.advance with
  | true =>
    obtain ⟨passed, ahead⟩ := c
    cases ahead with
    | nil => simp [Cursor.advance?, eq_comm]
    | cons t ahead => simp [Cursor.advance?, check_eq_endOfStream_iff]
  | false => simp [check_eq_endOfStream_iff]

/-! ## Parsers -/

namespace Parser

variable {α : Type} {p : Parser α} {s : Settings} {c : Cursor} {e : ParseError} {n : Nat}

theorem Built.position_of_run (hp : Built (fun e => ∀ n, e.innermost ≠ .endOfStream n) p)
    (he : (p.run s c).result = .error e) (hn : e.innermost = .endOfStream n) :
    n = c.tokens.length ∨ n = 0 ∧ c.passed = [] := by
  obtain ⟨d, hd, rfl, hend⟩ := (hp.detects s c e he).exists_end (fun _ h => h) hn
  exact hd.position_of_end hend

/-- Put behind one more token, a parser that does not look back reports the same end, one position
later. There it cannot be the beginning. -/
theorem LooksAhead.position_of_run {asked : String → Prop} (hahead : LooksAhead asked p)
    (hp : Built (fun e => ∀ n, e.innermost ≠ .endOfStream n) p)
    (he : (p.run s c).result = .error e) (hn : e.innermost = .endOfStream n) :
    n = c.tokens.length := by
  have hshift := hahead.shiftsTo s [⟨.null, {}⟩] c
  obtain ⟨e', he', hshifted⟩ : ∃ e', (p.run s (c.behind [⟨.null, {}⟩])).result = .error e' ∧
      e.Shifted asked s.maxDepth 1 e' := by
    generalize p.run s c = o, p.run s (c.behind [⟨.null, {}⟩]) = o' at hshift he ⊢
    cases hshift with
    | ok => cases he
    | error h =>
      cases he
      exact ⟨_, rfl, h⟩
  have hlater : e'.innermost = .endOfStream (n + 1) := by
    have hend := hshifted.innermost
    rw [hn] at hend
    exact hend.of_endOfStream
  rcases hp.position_of_run he' hlater with hlength | ⟨hzero, -⟩
  · have hsame : (c.behind [⟨.null, {}⟩]).ahead = c.ahead := rfl
    rw [Cursor.length_tokens, Cursor.position_behind, hsame, List.length_singleton] at hlength
    rw [Cursor.length_tokens]
    omega
  · omega

/-- The end of the tokens is reported at their end, or before the first of them. The latter is only
possible from there, and not for a parser that moves onto a token before it looks at it. What a
caller may fail with is anything but the end. -/
theorem Built.endOfStream_of_run (hp : Built (fun e => ∀ n, e.innermost ≠ .endOfStream n) p)
    (he : (p.run s c).result = .error e) (hn : e.innermost = .endOfStream n) :
    (n = c.tokens.length ∨ n = 0 ∧ c.passed = []) ∧
      ∀ asked, LooksAhead asked p → n = c.tokens.length :=
  ⟨hp.position_of_run he hn, fun _ hahead => hahead.position_of_run hp he hn⟩

/-- The value of the first property is missing, and the end is reported behind its name. -/
theorem endOfStream_of_run_lastString :
    let c : Cursor := .ofTokens (numberEntry.take 2)
    (lastString.run {} c).result = .error (.property "a" (.endOfStream 2)) ∧
      2 = c.tokens.length := by
  intro c
  have he : (lastString.run {} c).result = .error (.property "a" (.endOfStream 2)) := by rfl
  have hahead : LooksAhead (fun _ => False) lastString :=
    .object (fun _ => .map _ (.scalar .string)) none
  exact ⟨he, ((built_lastString _).endOfStream_of_run he rfl).2 _ hahead⟩

/-- The end is reported where a token is ahead, by a pattern for the current token. -/
theorem not_forall_endOfStream_of_run :
    ¬ ∀ {α : Type} {p : Parser α} {s : Settings} {c : Cursor} {e : ParseError} {n : Nat},
      Built (fun e => ∀ n, e.innermost ≠ .endOfStream n) p → (p.run s c).result = .error e →
        e.innermost = .endOfStream n → n = c.tokens.length := by
  intro h
  have hrun : ((TokenPattern.parser ⟨[.nullWord], false⟩).run {} (.ofTokens [⟨.null, {}⟩])).result =
      .error (.endOfStream 0) :=
    (TokenPattern.run_eq_endOfStream_iff _ _ _ _).mpr ⟨rfl, .inr ⟨rfl, rfl⟩⟩
  cases h (.token _) hrun rfl

end Parser

end JsonReader
