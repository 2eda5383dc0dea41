import JsonReader.Proofs.Parser.Choice

/-!
# Runs of the parsers for scalars

A scalar takes one token, whatever becomes of it, unless none is left. A nullable scalar reads as
the choice between `null` and the scalar that it extends: it succeeds on the same tokens with the
same values, and where both fail, they fail in the same way and in the same place, though each one
says itself what it wanted.

## Main definitions

* `ParseError.SameFault` compares two failures up to what was wanted, `Outcome.Agrees` two runs.
* `Scalar.Nullable` relates the nullable scalars to those that they extend.
* `Scalar.nullOr` is the choice between `null` and a scalar.

## Main statements

* `Scalar.run_cons`, `Scalar.run_cons_of_notMem`, `Scalar.run_nil`: every run of a scalar.
* `Scalar.Nullable.run_eq_nullOr`: a nullable scalar and the choice.
-/

namespace JsonReader

variable {s : Settings} {passed rest : List LocatedToken} {t : LocatedToken}

/-! ## Patterns -/

namespace TokenPattern

variable {x : TokenPattern}

theorem run_nil (hx : x.advance = true) :
    x.parser.run s ⟨passed, []⟩ = ⟨.error (.endOfStream passed.length), ⟨passed, []⟩, []⟩ := by
  simp only [parser, hx, if_true]
  rfl

theorem run_cons (hx : x.advance = true) (ht : t.token.kind ∈ x.kinds) :
    x.parser.run s ⟨passed, t :: rest⟩ = ⟨.ok t.token.kind, ⟨t :: passed, rest⟩, []⟩ := by
  simp only [parser, hx, if_true, Cursor.advance?_cons]
  exact if_pos ht

/-- A token that is not wanted is taken too. -/
theorem run_cons_of_notMem (hx : x.advance = true) (ht : t.token.kind ∉ x.kinds) :
    x.parser.run s ⟨passed, t :: rest⟩ =
      ⟨.error (.tokenMismatch (TokenKind.describe x.kinds) t.token.kind (passed.length + 1)),
        ⟨t :: passed, rest⟩, []⟩ := by
  simp only [parser, hx, if_true, Cursor.advance?_cons]
  exact if_neg ht

end TokenPattern

/-! ## Scalars -/

namespace Scalar

variable {α : Type} {x : Scalar α} {a : α}

theorem run_nil (hx : x.token.advance = true) :
    x.parser.run s ⟨passed, []⟩ = ⟨.error (.endOfStream passed.length), ⟨passed, []⟩, []⟩ := by
  simp only [parser, TokenPattern.run_nil hx]

theorem run_cons_of_notMem (hx : x.token.advance = true) (ht : t.token.kind ∉ x.token.kinds) :
    x.parser.run s ⟨passed, t :: rest⟩ =
      ⟨.error (.tokenMismatch (TokenKind.describe x.token.kinds) t.token.kind (passed.length + 1)),
        ⟨t :: passed, rest⟩, []⟩ := by
  simp only [parser, TokenPattern.run_cons_of_notMem hx ht]

/-- A token of the right kind is read; if it denotes no value, the failure quotes its text. -/
theorem run_cons (hx : x.token.advance = true) (ht : t.token.kind ∈ x.token.kinds) :
    x.parser.run s ⟨passed, t :: rest⟩ =
      ⟨(x.read ⟨t :: passed, rest⟩).elim
          (.error (.conversion x.target t.token.text (passed.length + 1))) .ok,
        ⟨t :: passed, rest⟩, []⟩ := by
  simp only [parser, TokenPattern.run_cons hx ht]
  cases x.read ⟨t :: passed, rest⟩ <;> rfl

/-- One token is taken, whether or not it is read, if there is one. -/
theorem cursor_run_eq_advance (hx : x.token.advance = true) (s : Settings) (c : Cursor) :
    (x.parser.run s c).cursor = c.advance?.getD c := by
  obtain ⟨passed, ahead⟩ := c
  cases ahead with
  | nil => rw [run_nil hx]; rfl
  | cons t rest =>
    by_cases ht : t.token.kind ∈ x.token.kinds
    · rw [run_cons hx ht]; rfl
    · rw [run_cons_of_notMem hx ht]; rfl

end Scalar

/-! ## Failures -/

/-- The same failure in the same place, up to what was wanted there. -/
inductive ParseError.SameFault : ParseError → ParseError → Prop
  | endOfStream (position : Nat) : SameFault (.endOfStream position) (.endOfStream position)
  | tokenMismatch (expected expected' : String) (found : TokenKind) (position : Nat) :
      SameFault (.tokenMismatch expected found position) (.tokenMismatch expected' found position)
  | conversion (target target' found : String) (position : Nat) :
      SameFault (.conversion target found position) (.conversion target' found position)

/-- Both runs succeed with the same value, or both have the same failure. The cursor is the same in
either case. -/
inductive Outcome.Agrees {α : Type} : Outcome ParseError α → Outcome ParseError α → Prop
  | ok (a : α) (c : Cursor) (notes notes' : List Note) :
      Agrees ⟨.ok a, c, notes⟩ ⟨.ok a, c, notes'⟩
  | error {e e' : ParseError} (h : e.SameFault e') (c : Cursor) (notes notes' : List Note) :
      Agrees ⟨.error e, c, notes⟩ ⟨.error e', c, notes'⟩

/-! ## Nullable scalars -/

namespace Scalar

/-- The nullable scalars, each with the scalar that it extends. Both have the same reader. -/
inductive Nullable : {α : Type} → Scalar α → Scalar (Option α) → Prop
  | string : Nullable string optionalString
  | bool : Nullable bool optionalBool
  | i32 : Nullable (integer .i32) (optionalInteger .i32)
  | i64 : Nullable (integer .i64) (optionalInteger .i64)
  | f64 : Nullable f64 optionalF64
  | decimal (reader : Number.ScaledDecimal.Reader) :
      Nullable (decimal reader) (optionalDecimal reader)
  | guid (parse : Codec.Guid.Reader) : Nullable (guid parse) (optionalGuid parse)
  | dateTime (formats : Calendar.Formats) : Nullable (dateTime formats) (optionalDateTime formats)
  | url (read : Url.Reader) : Nullable (url read) (optionalUrl read)

variable {α : Type} {x : Scalar α} {y : Scalar (Option α)} {c : Cursor} {e : ParseError}

/-- What makes a nullable scalar of another one: it takes `null` besides, and it reads all other
tokens in the same way. -/
structure Nullable.Laws (x : Scalar α) (y : Scalar (Option α)) : Prop where
  advance : x.token.advance = true
  advance' : y.token.advance = true
  notMem_kinds : TokenKind.nullWord ∉ x.token.kinds
  kinds_eq : y.token.kinds = x.token.kinds ++ [.nullWord]
  read_eq : y.read = readNullable x.read

theorem Nullable.laws (h : Nullable x y) : Laws x y := by
  have hstring : TokenKind.nullWord ∉ TokenPattern.string.kinds := by decide
  have hbool : TokenKind.nullWord ∉ TokenPattern.bool.kinds := by decide
  have hnumber : TokenKind.nullWord ∉ TokenPattern.number.kinds := by decide
  cases h with
  | string | guid | dateTime | url => exact ⟨rfl, rfl, hstring, rfl, rfl⟩
  | bool => exact ⟨rfl, rfl, hbool, rfl, rfl⟩
  | i32 | i64 | f64 | decimal => exact ⟨rfl, rfl, hnumber, rfl, rfl⟩

/-- Either `null`, which is no value, or what the scalar reads. -/
def nullOr (x : Scalar α) : Parser (Option α) :=
  (TokenPattern.null.parser.replace none).or (some <$> x.parser)

theorem run_nullOr_of_null (ht : t.token.kind = .nullWord) :
    x.nullOr.run s ⟨passed, t :: rest⟩ = ⟨.ok none, ⟨t :: passed, rest⟩, []⟩ := by
  have hnull : (TokenPattern.null.parser.replace (none : Option α)).run s ⟨passed, t :: rest⟩ =
      ⟨.ok none, ⟨t :: passed, rest⟩, []⟩ := by
    have hkind : t.token.kind ∈ TokenPattern.null.kinds := List.mem_singleton.mpr ht
    rw [Parser.replace, Parser.run_bind, TokenPattern.run_cons rfl hkind]
    rfl
  rw [nullOr, Parser.run_or_of_ok (congrArg Outcome.result hnull), hnull]

/-- Where there is no `null`, the scalar begins in the same place. -/
theorem run_nullOr_of_error {d : Cursor}
    (h : TokenPattern.null.parser.run s c = ⟨.error e, d, []⟩) :
    x.nullOr.run s c = (some <$> x.parser).run s c := by
  have hnull : (TokenPattern.null.parser.replace (none : Option α)).run s c =
      ⟨.error e, d, []⟩ := by
    rw [Parser.replace, Parser.run_bind, h]
  rw [nullOr, Parser.run_or_of_error (congrArg Outcome.result hnull), hnull, Outcome.after_nil]

theorem run_nullOr_of_ne_null (ht : t.token.kind ≠ .nullWord) :
    x.nullOr.run s ⟨passed, t :: rest⟩ = (some <$> x.parser).run s ⟨passed, t :: rest⟩ :=
  run_nullOr_of_error (TokenPattern.run_cons_of_notMem rfl (by simpa [TokenPattern.null] using ht))

/-- By cases on the next token: there is none, it is `null`, it is of a kind that the scalar takes,
or of another kind. -/
theorem Nullable.Laws.agrees_nullOr (h : Laws x y) (s : Settings) (c : Cursor) :
    (y.parser.run s c).Agrees (x.nullOr.run s c) := by
  obtain ⟨passed, ahead⟩ := c
  cases ahead with
  | nil =>
    rw [run_nil h.advance', run_nullOr_of_error (TokenPattern.run_nil rfl), Parser.run_map,
      run_nil h.advance]
    exact .error (.endOfStream _) _ _ _
  | cons t rest =>
    by_cases hnull : t.token.kind = .nullWord
    · have ht : t.token.kind ∈ y.token.kinds := by simp [h.kinds_eq, hnull]
      have hread : y.read ⟨t :: passed, rest⟩ = some none := by
        rw [h.read_eq, readNullable]
        exact if_pos (congrArg some hnull)
      rw [run_cons h.advance' ht, hread, run_nullOr_of_null hnull]
      exact .ok none _ _ _
    · have hread : y.read ⟨t :: passed, rest⟩ = (x.read ⟨t :: passed, rest⟩).map some := by
        rw [h.read_eq, readNullable]
        exact if_neg fun hkind => hnull (Option.some.inj hkind)
      have hmem : t.token.kind ∈ y.token.kinds ↔ t.token.kind ∈ x.token.kinds := by
        simp [h.kinds_eq, hnull]
      rw [run_nullOr_of_ne_null hnull, Parser.run_map]
      by_cases ht : t.token.kind ∈ x.token.kinds
      · rw [run_cons h.advance' (hmem.mpr ht), run_cons h.advance ht, hread]
        cases x.read ⟨t :: passed, rest⟩ with
        | some a => exact .ok (some a) _ _ _
        | none => exact .error (.conversion _ _ _ _) _ _ _
      · rw [run_cons_of_notMem h.advance' (mt hmem.mp ht), run_cons_of_notMem h.advance ht]
        exact .error (.tokenMismatch _ _ _ _) _ _ _

/-- A failure quotes where the cursor was left: behind the token that was taken, or at the end. -/
theorem position?_of_run_eq_error (hx : x.token.advance = true)
    (h : (x.parser.run s c).result = .error e) :
    e.position? = some (x.parser.run s c).cursor.position := by
  obtain ⟨passed, ahead⟩ := c
  cases ahead with
  | nil =>
    rw [run_nil hx] at h ⊢
    cases h
    rfl
  | cons t rest =>
    by_cases ht : t.token.kind ∈ x.token.kinds
    · rw [run_cons hx ht] at h ⊢
      cases hread : x.read ⟨t :: passed, rest⟩ with
      | some a => simp [hread] at h
      | none =>
        simp only [hread] at h
        cases h
        rfl
    · rw [run_cons_of_notMem hx ht] at h ⊢
      cases h
      rfl

/-- Each nullable scalar is the choice between `null` and the scalar that it extends. On all tokens
and from every place the two succeed together, with the same value, or fail together, at the end of
the tokens, at a token of the wrong kind or at one that denotes no value. Either way they leave the
same cursor, one token further on unless none is left, and that is the position of the failure. -/
theorem Nullable.run_eq_nullOr (h : Nullable x y) (s : Settings) (c : Cursor) :
    (y.parser.run s c).Agrees (x.nullOr.run s c) ∧
      (y.parser.run s c).cursor = c.advance?.getD c ∧
      ∀ e, (y.parser.run s c).result = .error e →
        e.position? = some (y.parser.run s c).cursor.position :=
  ⟨h.laws.agrees_nullOr s c, cursor_run_eq_advance h.laws.advance' s c,
    fun _ he => position?_of_run_eq_error h.laws.advance' he⟩

/-- A number that is too large for a float, behind a `null`. -/
def hugeNumber : Cursor := ⟨[⟨.null, {}⟩], [⟨.number "-1e400", {}⟩]⟩

/-- It is of the right kind and denotes no finite number, so both fail on it, each in its words. -/
theorem run_eq_nullOr_hugeNumber :
    Nullable f64 optionalF64 ∧
      (optionalF64.parser.run {} hugeNumber).result =
        .error (.conversion "f64 or null" "-1e400" 2) ∧
      (f64.nullOr.run {} hugeNumber).result = .error (.conversion "f64" "-1e400" 2) ∧
      (optionalF64.parser.run {} hugeNumber).Agrees (f64.nullOr.run {} hugeNumber) ∧
      (optionalF64.parser.run {} hugeNumber).cursor.ahead = [] := by
  obtain ⟨hagrees, hcursor, -⟩ := Nullable.f64.run_eq_nullOr {} hugeNumber
  have hread : f64.read ⟨[⟨.number "-1e400", {}⟩, ⟨.null, {}⟩], []⟩ = none := by decide +kernel
  have hread' : optionalF64.read ⟨[⟨.number "-1e400", {}⟩, ⟨.null, {}⟩], []⟩ = none := by
    decide +kernel
  refine ⟨.f64, ?_, ?_, hagrees, ?_⟩
  · rw [hugeNumber, run_cons rfl (by decide), hread']
    rfl
  · rw [hugeNumber, run_nullOr_of_ne_null (by decide), Parser.run_map, run_cons rfl (by decide),
      hread]
    rfl
  · rw [hcursor]
    rfl

end Scalar

end JsonReader
