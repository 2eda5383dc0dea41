import JsonReader.Proofs.Parser.Forward

/-!
# Runs with tokens put behind

Two runs on the same tokens ahead, the second one with further tokens behind its cursor. A parser
that does not look at what is behind does the same in both, and the positions in the second run are
greater by the number of those tokens. The relation of the runs is closed under the combinators. It
is stated for two parsers and a relation of their values, because what the engine for objects keeps
of a failed property differs in its positions.

## Main definitions

* `Cursor.behind` puts tokens behind a cursor.
* `ParseError.Shifted`, `ParseResult.Shifted` and `Outcome.Shifted` relate what the two runs yield.
* `Parser.ShiftsTo` relates two parsers by all their runs.

## Main statements

* `ShiftsTo.bind`, `ShiftsTo.or`, `ShiftsTo.many` and the others, one for each way to make a parser.
-/

namespace JsonReader

/-! ## Cursors -/

namespace Cursor

variable {c d : Cursor} {before : List LocatedToken}

/-- The cursor with further tokens before all those behind it. -/
def behind (before : List LocatedToken) (c : Cursor) : Cursor :=
  ⟨c.passed ++ before.reverse, c.ahead⟩

@[simp] theorem position_behind : (c.behind before).position = c.position + before.length := by
  simp [behind, position]

theorem advance?_behind : (c.behind before).advance? = c.advance?.map (behind before) := by
  cases c with
  | mk passed ahead => cases ahead <;> rfl

theorem passed_ne_nil_of_advance? (h : c.advance? = some d) : d.passed ≠ [] := by
  rw [← List.length_pos_iff]
  have := position_of_advance? h
  rw [position] at this
  omega

theorem LeadsTo.passed_ne_nil (h : c.LeadsTo d) (hc : c.passed ≠ []) : d.passed ≠ [] := by
  rw [← List.length_pos_iff] at hc ⊢
  exact Nat.lt_of_lt_of_le hc h.position_le

/-- The current token stays, if there is one. -/
theorem token?_behind (h : c.passed ≠ []) : (c.behind before).token? = c.token? := by
  cases c with
  | mk passed ahead =>
    cases passed with
    | nil => exact absurd rfl h
    | cons => rfl

theorem kind?_behind (h : c.passed ≠ []) : (c.behind before).kind? = c.kind? := by
  rw [kind?, kind?, token?_behind h]

theorem describe_behind (h : c.passed ≠ []) : (c.behind before).describe = c.describe := by
  rw [describe, describe, token?_behind h]

theorem skipOpen_behind (depth : Nat) (passed ahead : List LocatedToken) :
    skipOpen depth (passed ++ before.reverse) ahead =
      ((skipOpen depth passed ahead).1, (skipOpen depth passed ahead).2.behind before) := by
  induction ahead generalizing depth passed with
  | nil => cases depth <;> rfl
  | cons t ahead ih =>
    cases depth with
    | zero => rfl
    | succ depth => exact ih _ (t :: passed)

theorem skipValue_behind (h : c.passed ≠ []) :
    (c.behind before).skipValue = (c.skipValue.1, c.skipValue.2.behind before) := by
  rw [skipValue, skipValue, kind?_behind h]
  split
  · split
    · exact skipOpen_behind 1 c.passed c.ahead
    · rfl
  · rfl

end Cursor

/-! ## Failures, results and outcomes -/

/-- The failure has its position so much later, whatever is wrapped around it. The message about
the nesting limit quotes its position. A failure with a text that was asked for stays as it is. -/
inductive ParseError.Shifted (asked : String → Prop) (limit n : Nat) :
    ParseError → ParseError → Prop
  | endOfStream (p : Nat) : Shifted asked limit n (.endOfStream p) (.endOfStream (p + n))
  | tokenMismatch (expected : String) (found : TokenKind) (p : Nat) :
      Shifted asked limit n (.tokenMismatch expected found p)
        (.tokenMismatch expected found (p + n))
  | conversion (target found : String) (p : Nat) :
      Shifted asked limit n (.conversion target found p) (.conversion target found (p + n))
  | unexpected (expected found : String) (p : Nat) :
      Shifted asked limit n (.unexpected expected found p) (.unexpected expected found (p + n))
  | rejected (found : String) (p : Nat) :
      Shifted asked limit n (.rejected found p) (.rejected found (p + n))
  | unknownProperty (name : String) :
      Shifted asked limit n (.unknownProperty name) (.unknownProperty name)
  | property {e e' : ParseError} (name : String) (h : Shifted asked limit n e e') :
      Shifted asked limit n (.property name e) (.property name e')
  | failed {text : String} (h : asked text) :
      Shifted asked limit n (.failed text) (.failed text)
  | tooDeep (p : Nat) :
      Shifted asked limit n (.failed s!"maximum depth {limit} exceeded at position {p}")
        (.failed s!"maximum depth {limit} exceeded at position {p + n}")
  | context {e e' : ParseError} (message : String) (h : Shifted asked limit n e e') :
      Shifted asked limit n (.context message e) (.context message e')

/-- The failure has no position. Its text, if it has one, is of a given kind. -/
def ParseError.Free (asked : String → Prop) : ParseError → Prop
  | unknownProperty _ => True
  | failed text => asked text
  | property _ inner | context _ inner => inner.Free asked
  | endOfStream _ | tokenMismatch .. | conversion .. | unexpected .. | rejected .. => False

namespace ParseError

variable {asked : String → Prop} {limit n : Nat} {e e' e'' : ParseError}

theorem Free.shifted (h : e.Free asked) : e.Shifted asked limit n e := by
  induction e with
  | unknownProperty name => exact .unknownProperty name
  | failed text => exact .failed h
  | property name _ ih => exact .property name (ih h)
  | context message _ ih => exact .context message (ih h)
  | _ => exact h.elim

theorem Shifted.of_failed {text : String} (h : (ParseError.failed text).Shifted asked limit n e) :
    asked text ∧ e = .failed text ∨
      ∃ p : Nat, text = s!"maximum depth {limit} exceeded at position {p}" ∧
        e = .failed s!"maximum depth {limit} exceeded at position {p + n}" := by
  cases h with
  | failed h => exact .inl ⟨h, rfl⟩
  | tooDeep p => exact .inr ⟨p, rfl, rfl⟩

/-- Where no text that is asked for looks like the one about the nesting limit, the later failure is
determined. -/
theorem Shifted.unique
    (hasked : ∀ p : Nat, ¬ asked s!"maximum depth {limit} exceeded at position {p}")
    (h : e.Shifted asked limit n e') (h' : e.Shifted asked limit n e'') : e' = e'' := by
  induction h generalizing e'' with
  | property _ _ ih =>
    cases h' with
    | property _ h' => rw [ih h']
  | context _ _ ih =>
    cases h' with
    | context _ h' => rw [ih h']
  | failed h =>
    rcases h'.of_failed with ⟨-, rfl⟩ | ⟨p, rfl, -⟩
    · rfl
    · exact absurd h (hasked p)
  | tooDeep p =>
    rcases h'.of_failed with ⟨h, -⟩ | ⟨q, hpq, rfl⟩
    · exact absurd h (hasked p)
    · -- the digits tell the position
      have hdigits : Nat.toDigits 10 p = Nat.toDigits 10 q := by
        simpa [Nat.repr_eq_ofList_toDigits, String.ofList_inj] using hpq
      have hvalue := congrArg (Nat.ofDigitChars 10 · 0) hdigits
      simp only [Nat.ofDigitChars_ten_toDigits] at hvalue
      rw [hvalue]
  | _ =>
    cases h'
    rfl

end ParseError

/-- Related values, or failures of which the second is so much later. -/
inductive ParseResult.Shifted {α : Type} (asked : String → Prop) (limit n : Nat)
    (R : α → α → Prop) : ParseResult α → ParseResult α → Prop
  | ok {a b : α} (h : R a b) : Shifted asked limit n R (.ok a) (.ok b)
  | error {e e' : ParseError} (h : e.Shifted asked limit n e') :
      Shifted asked limit n R (.error e) (.error e')

/-- Results of that kind at the same place, but for the tokens behind. -/
inductive Outcome.Shifted {α : Type} (asked : String → Prop) (limit : Nat)
    (before : List LocatedToken) (R : α → α → Prop) :
    Outcome ParseError α → Outcome ParseError α → Prop
  | ok {a b : α} {d : Cursor} {notes notes' : List Note} (h : R a b) :
      Shifted asked limit before R ⟨.ok a, d, notes⟩ ⟨.ok b, d.behind before, notes'⟩
  | error {e e' : ParseError} {d : Cursor} {notes notes' : List Note}
      (h : e.Shifted asked limit before.length e') :
      Shifted asked limit before R ⟨.error e, d, notes⟩ ⟨.error e', d.behind before, notes'⟩

theorem Outcome.Shifted.after {α : Type} {asked : String → Prop} {limit : Nat}
    {before : List LocatedToken} {R : α → α → Prop} {o o' : Outcome ParseError α}
    (h : o.Shifted asked limit before R o') (notes notes' : List Note) :
    (o.after notes).Shifted asked limit before R (o'.after notes') := by
  cases h with
  | ok h => exact .ok h
  | error h => exact .error h

/-- A failure at the place of the cursor is later by the tokens behind it. -/
theorem Outcome.Shifted.error_here {α : Type} {asked : String → Prop} {limit : Nat}
    {before : List LocatedToken} {R : α → α → Prop} {f : Nat → ParseError} {d : Cursor}
    {notes notes' : List Note}
    (h : ∀ p, (f p).Shifted asked limit before.length (f (p + before.length))) :
    Shifted asked limit before R ⟨.error (f d.position), d, notes⟩
      ⟨.error (f (d.behind before).position), d.behind before, notes'⟩ := by
  rw [Cursor.position_behind]
  exact .error (h d.position)

namespace Parser

variable {α β : Type} {asked : String → Prop} {s : Settings} {before : List LocatedToken}
  {R : α → α → Prop} {R' : β → β → Prop} {p p' q q' : Parser α}

/-- Every run of the one parser comes to what the run of the other one comes to from the same place
with further tokens behind. -/
def ShiftsTo (asked : String → Prop) (s : Settings) (before : List LocatedToken)
    (R : α → α → Prop) (p q : Parser α) : Prop :=
  ∀ c, (p.run s c).Shifted asked s.maxDepth before R (q.run s (c.behind before))

/-- What follows matters only where the first parser has got to. -/
theorem shifted_bind {c : Cursor} {next next' : α → Parser β}
    (hp : (p.run s c).Shifted asked s.maxDepth before R (p'.run s (c.behind before)))
    (hnext : ∀ a b, R a b → (p.run s c).result = .ok a →
      ((next a).run s (p.run s c).cursor).Shifted asked s.maxDepth before R'
        ((next' b).run s ((p.run s c).cursor.behind before))) :
    ((p >>= next).run s c).Shifted asked s.maxDepth before R'
      ((p' >>= next').run s (c.behind before)) := by
  rw [run_bind, run_bind]
  generalize p.run s c = o, p'.run s (c.behind before) = o' at hp hnext ⊢
  cases hp with
  | ok h => exact (hnext _ _ h rfl).after _ _
  | error h => exact .error h

namespace ShiftsTo

theorem bind {next next' : α → Parser β} (hp : ShiftsTo asked s before R p p')
    (hnext : ∀ a b, R a b → (∃ s c, (p.run s c).result = .ok a) →
      ShiftsTo asked s before R' (next a) (next' b)) :
    ShiftsTo asked s before R' (p >>= next) (p' >>= next') :=
  fun c => shifted_bind (hp c) fun a b h hok => hnext a b h ⟨s, c, hok⟩ _

theorem pure {a b : α} (h : R a b) : ShiftsTo asked s before R (Pure.pure a) (Pure.pure b) :=
  fun _ => .ok h

theorem throw {e e' : ParseError} (h : e.Shifted asked s.maxDepth before.length e') :
    ShiftsTo asked s before R (Parser.throw e) (Parser.throw e') :=
  fun _ => .error h

theorem ofResult {r r' : ParseResult α}
    (h : ParseResult.Shifted asked s.maxDepth before.length R r r') :
    ShiftsTo asked s before R (Parser.ofResult r) (Parser.ofResult r') := by
  intro c
  cases h with
  | ok h => exact .ok h
  | error h => exact .error h

theorem or (hp : ShiftsTo asked s before R p p') (hq : ShiftsTo asked s before R q q') :
    ShiftsTo asked s before R (p.or q) (p'.or q') := by
  intro c
  have h := hp c
  simp only [Parser.or]
  generalize p.run s c = o, p'.run s (c.behind before) = o' at h ⊢
  cases h with
  | ok h => exact .ok h
  | error => exact (hq c).after _ _

theorem optional (hp : ShiftsTo asked s before Eq p p') :
    ShiftsTo asked s before Eq p.optional p'.optional := by
  intro c
  have h := hp c
  simp only [Parser.optional]
  generalize p.run s c = o, p'.run s (c.behind before) = o' at h ⊢
  cases h with
  | ok h => exact .ok (congrArg some h)
  | error => exact .ok rfl

/-- What is captured of a failure is later. -/
theorem capture (hp : ShiftsTo asked s before R p p') :
    ShiftsTo asked s before (ParseResult.Shifted asked s.maxDepth before.length R) p.capture
      p'.capture := by
  intro c
  have h := hp c
  simp only [Parser.capture]
  generalize p.run s c = o, p'.run s (c.behind before) = o' at h ⊢
  cases h with
  | ok h => exact .ok (.ok h)
  | error h => exact .ok (.error h)

theorem manyAtMost {L : List α → List α → Prop} (hnil : L [] [])
    (hcons : ∀ a b as bs, R a b → L as bs → L (a :: as) (b :: bs))
    (hp : ShiftsTo asked s before R p p') (count : Nat) (c : Cursor) :
    (p.manyAtMost s count c).Shifted asked s.maxDepth before L
      (p'.manyAtMost s count (c.behind before)) := by
  induction count generalizing c with
  | zero => exact .ok hnil
  | succ count ih =>
    have h := hp c
    simp only [Parser.manyAtMost]
    generalize p.run s c = o, p'.run s (c.behind before) = o' at h ⊢
    cases h with
    | @ok a b d _ _ h =>
      have hrest := ih d
      generalize p.manyAtMost s count d = o at hrest ⊢
      generalize p'.manyAtMost s count (d.behind before) = o' at hrest ⊢
      cases hrest with
      | ok hs => exact .ok (hcons a b _ _ h hs)
      | error h => exact .error h
    | error => exact .ok hnil

/-- As many attempts are made as tokens are ahead, and those are the same. -/
theorem many {L : List α → List α → Prop} (hnil : L [] [])
    (hcons : ∀ a b as bs, R a b → L as bs → L (a :: as) (b :: bs))
    (hp : ShiftsTo asked s before R p p') : ShiftsTo asked s before L p.many p'.many :=
  fun c => manyAtMost hnil hcons hp (c.ahead.length + 1) c

theorem filter [Shown α] (test : α → Bool) (hp : ShiftsTo asked s before Eq p p') :
    ShiftsTo asked s before Eq (p.filter test) (p'.filter test) := by
  intro c
  have h := hp c
  simp only [Parser.filter]
  generalize p.run s c = o, p'.run s (c.behind before) = o' at h ⊢
  cases h with
  | ok h =>
    subst h
    dsimp only
    split
    · exact .ok rfl
    · exact .error_here (.rejected _)
  | error h => exact .error h

theorem withContext (message : String) (hp : ShiftsTo asked s before R p p') :
    ShiftsTo asked s before R (p.withContext message) (p'.withContext message) := by
  intro c
  have h := hp c
  simp only [Parser.withContext]
  generalize p.run s c = o, p'.run s (c.behind before) = o' at h ⊢
  cases h with
  | ok h => exact .ok h
  | error h => exact .error (.context message h)

end ShiftsTo

end Parser

end JsonReader
