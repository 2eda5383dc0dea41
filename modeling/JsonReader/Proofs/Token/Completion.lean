import JsonReader.Proofs.Token.Completeness

/-!
# Faults and longer texts

A text that ends inside a value can always be completed: every state has a completion, and a line
break in front of it keeps the last lexeme as it is. A text with a misplaced lexeme, a container too
deep or a refused comment cannot be completed, since a longer text has the same lexemes in front of
the fault and a lexeme of the same kind at the fault.

An unreadable rest tells neither: a string without its closing quote can be completed, and a stray
letter cannot.

## Main definitions

* `Structure.completion` is a text that completes a document from a state.
* `TokenizerError.Final` holds of the faults that no longer text repairs.

## Main statements

* `accepts_completion`, `not_accepts_append`: completing a run, and refusing every longer one.
* `tokenize_append_of_eq_error`: what a fault tells about all longer texts.
-/

namespace JsonReader

open Grammar

variable {settings : TokenizerSettings}

/-! ## Completions -/

/-- The brackets that close all open containers. -/
def closers : List Container → List Char
  | [] => []
  | .object :: stack => '\x7d' :: closers stack
  | .array :: stack => ']' :: closers stack

/-- The shortest value, and all brackets behind it. -/
def nullAndClosers (stack : List Container) : List Char := 'n' :: 'u' :: 'l' :: 'l' :: closers stack

/-- A text that completes the document from a state. -/
def Structure.completion (st : Structure) : List Char :=
  match st.expected, st.stack with
  | .value, stack | .valueOrEnd, stack => nullAndClosers stack
  | .key, stack | .keyOrEnd, stack => '"' :: '"' :: ':' :: nullAndClosers stack
  | .colon, stack => ':' :: nullAndClosers stack
  | .commaOrEnd, [] => ',' :: nullAndClosers []
  | .commaOrEnd, stack => closers stack
  | .done, _ => []

theorem accepts_closers (settings : TokenizerSettings) (stack : List Container) :
    ∃ ts, Accepts settings (.afterValue stack) (closers stack) ts := by
  induction stack with
  | nil => exact ⟨[], _, .here, rfl⟩
  | cons c stack ih =>
    obtain ⟨ts, h⟩ := ih
    cases c with
    | object => exact ⟨_, accepts_of_closeBrace (.inr rfl) h⟩
    | array => exact ⟨_, accepts_of_closeBracket (.inr rfl) h⟩

theorem accepts_nullAndClosers (settings : TokenizerSettings) (stack : List Container)
    {e : Expected} (he : e = .value ∨ e = .valueOrEnd) :
    ∃ ts, Accepts settings ⟨stack, e⟩ (nullAndClosers stack) ts := by
  obtain ⟨ts, h⟩ := accepts_closers settings stack
  refine ⟨_, accepts_of_literal ?_ .nullWord h⟩
  exact he.imp (congrArg (Structure.mk stack)) (congrArg (Structure.mk stack))

/-- Every state can be completed. -/
theorem accepts_completion (settings : TokenizerSettings) (st : Structure) :
    ∃ ts, Accepts settings st st.completion ts := by
  obtain ⟨stack, e⟩ := st
  cases e with
  | value => exact accepts_nullAndClosers settings stack (.inl rfl)
  | valueOrEnd => exact accepts_nullAndClosers settings stack (.inr rfl)
  | key =>
    obtain ⟨ts, h⟩ := accepts_nullAndClosers settings stack (.inl rfl)
    exact ⟨_, accepts_of_name (.inl rfl) .nil (accepts_of_colon h)⟩
  | keyOrEnd =>
    obtain ⟨ts, h⟩ := accepts_nullAndClosers settings stack (.inl rfl)
    exact ⟨_, accepts_of_name (.inr rfl) .nil (accepts_of_colon h)⟩
  | colon =>
    obtain ⟨ts, h⟩ := accepts_nullAndClosers settings stack (.inl rfl)
    exact ⟨ts, accepts_of_colon h⟩
  | commaOrEnd =>
    cases stack with
    | nil =>
      have hnext : Structure.afterComma settings [] = .value ∨
          Structure.afterComma settings [] = .valueOrEnd := by
        cases h : settings.allowTrailingCommas <;> simp [Structure.afterComma, h]
      obtain ⟨ts, h⟩ := accepts_nullAndClosers settings [] hnext
      exact ⟨ts, accepts_of_comma h⟩
    | cons c stack => exact accepts_closers settings (c :: stack)
  | done => exact ⟨[], _, .here, rfl⟩

/-! ## Prolonging a run -/

/-- Where lexemes are left, the run takes the same lexemes of a longer text. -/
theorem Reads.append_of_lexes {st last : Structure} {s left : List Char} {ts : List Token}
    (h : Reads settings st s ts last left) (hleft : ∃ l rest, Lexes left l rest) (w : List Char) :
    Reads settings st (s ++ w) ts last (left ++ w) ∧ ∃ l rest, Lexes s l rest := by
  induction h with
  | here => exact ⟨.here, hleft⟩
  | step hlex hadmitted haccept _ ih =>
    obtain ⟨hrest, hnext⟩ := ih hleft
    refine ⟨.step (hlex.append (fun _ => hnext) ?_) hadmitted haccept hrest, _, _, hlex⟩
    rintro rfl
    obtain ⟨l, rest, hnext⟩ := hnext
    exact absurd rfl hnext.ne_nil

/-- A run over a whole text goes on behind a line break. -/
theorem Reads.append_of_nil {st last : Structure} {s : List Char} {ts : List Token}
    (h : Reads settings st s ts last []) {w : List Char} (hw : ['\r', '\n'] <+: w) :
    Reads settings st (s ++ w) ts last w := by
  generalize hleft : [] = left at h
  induction h with
  | here =>
    subst hleft
    exact .here
  | step hlex hadmitted haccept hrest ih =>
    refine .step (hlex.append ?_ fun _ => hw) hadmitted haccept (ih hleft)
    intro hne
    cases hrest with
    | here => exact absurd hleft.symm hne
    | step hnext _ _ _ => exact ⟨_, _, hnext⟩

theorem Reads.trans_accepts {st last : Structure} {s left : List Char} {ts ts' : List Token}
    (h : Reads settings st s ts last left) (hlast : Accepts settings last left ts') :
    Accepts settings st s (ts ++ ts') := by
  induction h with
  | here => exact hlast
  | step hlex hadmitted haccept _ ih =>
    rw [List.append_assoc]
    exact .step hlex hadmitted haccept (ih hlast)

/-- Runs do not branch. -/
theorem Reads.accepts_left {st last : Structure} {s left : List Char} {ts ts' : List Token}
    (h : Reads settings st s ts last left) (hs : Accepts settings st s ts') :
    ∃ ts'', Accepts settings last left ts'' := by
  induction h generalizing ts' with
  | here => exact ⟨ts', hs⟩
  | step hlex _ haccept _ ih =>
    obtain ⟨-, out', st'', ts'', haccept', -, hrest⟩ := hs.of_lexes hlex
    rw [haccept] at haccept'
    cases haccept'
    exact ih hrest

/-! ## Lexemes at fault -/

/-- The lexeme is not accepted in a state. -/
def Refused (settings : TokenizerSettings) (st : Structure) (l : Lexeme) : Prop :=
  ¬ l.Admitted settings ∨ (st.accept settings l).isOk = false

/-- Whether a lexeme is refused depends on its kind alone. -/
theorem refused_kind_iff {st : Structure} {l : Lexeme} :
    Refused settings st l.kind ↔ Refused settings st l := by
  obtain ⟨stack, e⟩ := st
  cases l with
  | literal l =>
    cases l <;> cases e <;>
      simp [Refused, Lexeme.kind, Lexeme.Admitted, Structure.accept, Structure.acceptLiteral,
        Structure.reject, Except.isOk, Except.toBool]
  | _ => exact Iff.rfl

/-- A lexeme at fault is at fault in every longer text. -/
theorem not_accepts_append {st last : Structure} {s left rest : List Char} {ts : List Token}
    {l : Lexeme} (h : Reads settings st s ts last left) (hlex : Lexes left l rest)
    (hrefused : Refused settings last l) (w : List Char) (ts' : List Token) :
    ¬ Accepts settings st (s ++ w) ts' := by
  intro haccepts
  obtain ⟨hreads, -⟩ := h.append_of_lexes ⟨l, rest, hlex⟩ w
  obtain ⟨ts'', last', hlast, -⟩ := hreads.accepts_left haccepts
  generalize hs : left ++ w = longer at hlast
  cases hlast with
  | here =>
    obtain ⟨c, left, rfl⟩ := List.exists_cons_of_ne_nil hlex.ne_nil
    simp at hs
  | step hlex' hadmitted haccept _ =>
    subst hs
    rw [← refused_kind_iff, ← hlex.kind_eq_of_append hlex', refused_kind_iff] at hrefused
    rcases hrefused with hrefused | hrefused
    · exact hrefused hadmitted
    · simp [haccept, Except.isOk, Except.toBool] at hrefused

/-! ## Faults -/

/-- The text could not go on: a lexeme is misplaced, a container is too deep or a comment is
refused. -/
def TokenizerError.Final : TokenizerError → Prop
  | misplaced _ _ _ | tooDeep _ _ | commentRefused _ => True
  | unreadable _ _ _ | unexpectedEnd _ => False

/-- A final fault is a refused lexeme. -/
theorem TokenizerError.Final.refused {e : TokenizerError} (he : e.Final) {st : Structure}
    {s : List Char} (h : e.Explains settings st s) :
    ∃ l rest, Lexes s l rest ∧ Refused settings st l := by
  cases e with
  | misplaced expected found span =>
    obtain ⟨l, rest, hlex, -, haccept⟩ := h
    exact ⟨l, rest, hlex, .inr (by rw [haccept]; rfl)⟩
  | tooDeep limit span =>
    obtain ⟨l, rest, hlex, -, haccept⟩ := h
    exact ⟨l, rest, hlex, .inr (by rw [haccept]; rfl)⟩
  | commentRefused span =>
    obtain ⟨content, rest, hlex, hrefused⟩ := h
    exact ⟨_, rest, hlex, .inl (by simp [Lexeme.Admitted, hrefused])⟩
  | unreadable rest failure span => exact he.elim
  | unexpectedEnd span => exact he.elim

theorem exists_tokenize_append_eq_ok {text : String} {span : Span}
    (h : tokenize settings text = .error (.unexpectedEnd span)) :
    ∃ suffix located, tokenize settings (text ++ suffix) = .ok located := by
  obtain ⟨ts, last, left, hreads, rfl, -⟩ := explains_of_tokenize_eq_error h
  obtain ⟨ts', hcompletion⟩ := accepts_completion settings last
  have hbreak : Accepts settings last ('\r' :: '\n' :: last.completion) ts' :=
    .skip .carriageReturnLineFeed trivial rfl hcompletion
  have hwhole := (hreads.append_of_nil (w := '\r' :: '\n' :: last.completion)
    ⟨last.completion, rfl⟩).trans_accepts hbreak
  refine ⟨String.ofList ('\r' :: '\n' :: last.completion), ?_⟩
  rw [← String.toList_ofList (l := '\r' :: '\n' :: last.completion),
    ← String.toList_append] at hwhole
  obtain ⟨located, hlocated, -⟩ := exists_tokenize_eq_ok_iff.mpr hwhole
  exact ⟨located, hlocated⟩

theorem exists_tokenize_append_eq_error {text : String} {e : TokenizerError} (he : e.Final)
    (h : tokenize settings text = .error e) (suffix : String) :
    ∃ e', tokenize settings (text ++ suffix) = .error e' := by
  obtain ⟨ts, last, left, hreads, hexplains⟩ := explains_of_tokenize_eq_error h
  obtain ⟨l, rest, hlex, hrefused⟩ := he.refused hexplains
  cases hlonger : tokenize settings (text ++ suffix) with
  | error e' => exact ⟨e', rfl⟩
  | ok located =>
    have haccepts := exists_tokenize_eq_ok_iff.mp ⟨located, hlonger, rfl⟩
    rw [String.toList_append] at haccepts
    exact absurd haccepts (not_accepts_append hreads hlex hrefused suffix.toList _)

/-- A text that ends too early is the beginning of a document, and a text with a final fault is
not. -/
theorem tokenize_append_of_eq_error {text : String} {e : TokenizerError}
    (h : tokenize settings text = .error e) :
    ((∃ span, e = .unexpectedEnd span) →
        ∃ suffix located, tokenize settings (text ++ suffix) = .ok located) ∧
      (e.Final → ∀ suffix, ∃ e', tokenize settings (text ++ suffix) = .error e') := by
  constructor
  · rintro ⟨span, rfl⟩
    exact exists_tokenize_append_eq_ok h
  · intro he
    exact exists_tokenize_append_eq_error he h

/-- An opening bracket ends too early and can be completed, a closing one cannot. -/
theorem tokenize_append_bracket :
    (∃ span, tokenize {} "[" = .error (.unexpectedEnd span)) ∧
      (∃ suffix located, tokenize {} ("[" ++ suffix) = .ok located) ∧
      (∃ span, tokenize {} "]" = .error (.misplaced .value "]" span)) ∧
      ∀ suffix, ∃ e, tokenize {} ("]" ++ suffix) = .error e := by
  have hopen : ∃ span, tokenize {} "[" = .error (.unexpectedEnd span) := by
    have haccept : Structure.accept {} {} (.delimiter .openBracket) =
        .ok (some .arrayStart, ⟨[.array], .valueOrEnd⟩) := rfl
    have hlex : Lexes ['['] (.delimiter .openBracket) [] := .delimiter .openBracket
    obtain ⟨_, next, h⟩ := tokensFrom_of_accept hlex trivial haccept {}
    rw [tokenize_eq_tokensFrom, show "[".toList = ['['] from rfl, h, tokensFrom_nil,
      if_neg (by decide)]
    exact ⟨_, rfl⟩
  have hclose : ∃ span, tokenize {} "]" = .error (.misplaced .value "]" span) := by
    have haccept : Structure.accept {} {} (.delimiter .closeBracket) =
        .error (.misplaced .value "]") := rfl
    have hlex : Lexes [']'] (.delimiter .closeBracket) [] := .delimiter .closeBracket
    obtain ⟨span, h⟩ := tokensFrom_of_error hlex trivial haccept {}
    rw [tokenize_eq_tokensFrom, show "]".toList = [']'] from rfl, h]
    exact ⟨span, rfl⟩
  obtain ⟨opened, hopen⟩ := hopen
  obtain ⟨closed, hclose⟩ := hclose
  exact ⟨⟨opened, hopen⟩, (tokenize_append_of_eq_error hopen).1 ⟨opened, rfl⟩, ⟨closed, hclose⟩,
    (tokenize_append_of_eq_error hclose).2 trivial⟩

end JsonReader
