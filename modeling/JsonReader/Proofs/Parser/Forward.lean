import JsonReader.Object.Engine

/-!
# Parsers that move forward

Whether a parser succeeds or fails, it keeps the tokens and does not move the cursor back. The
property is closed under the combinators, repetition included.

## Main definitions

* `Cursor.LeadsTo` relates two cursors on the same tokens, the second one not behind the first.
* `Parser.Forward` holds of a parser all of whose runs lead forward.

## Main statements

* `Forward.bind`, `Forward.or`, `Forward.many` and the others, one for each way to make a parser.
-/

namespace JsonReader

/-! ## Cursors -/

/-- The cursors stand on the same tokens, and the second one does not stand behind the first. -/
structure Cursor.LeadsTo (c d : Cursor) : Prop where
  tokens_eq : d.tokens = c.tokens
  position_le : c.position ≤ d.position

namespace Cursor

theorem LeadsTo.refl (c : Cursor) : c.LeadsTo c := ⟨rfl, Nat.le_refl _⟩

theorem LeadsTo.trans {c d e : Cursor} (h : c.LeadsTo d) (h' : d.LeadsTo e) : c.LeadsTo e :=
  ⟨h'.tokens_eq.trans h.tokens_eq, Nat.le_trans h.position_le h'.position_le⟩

theorem leadsTo_of_advance? {c d : Cursor} (h : c.advance? = some d) : c.LeadsTo d := by
  refine ⟨tokens_of_advance? h, ?_⟩
  rw [position_of_advance? h]
  omega

theorem length_tokens (c : Cursor) : c.tokens.length = c.position + c.ahead.length := by
  simp [tokens, position]

theorem LeadsTo.length_ahead_le {c d : Cursor} (h : c.LeadsTo d) :
    d.ahead.length ≤ c.ahead.length := by
  have htokens := congrArg List.length h.tokens_eq
  rw [length_tokens, length_tokens] at htokens
  have := h.position_le
  omega

/-- Skipping goes on from where it begins, by induction on the tokens ahead. -/
theorem leadsTo_skipOpen (depth : Nat) (passed ahead : List LocatedToken) :
    LeadsTo ⟨passed, ahead⟩ (skipOpen depth passed ahead).2 := by
  induction ahead generalizing depth passed with
  | nil => cases depth <;> exact .refl _
  | cons t ahead ih =>
    cases depth with
    | zero => exact .refl _
    | succ depth => exact (leadsTo_of_advance? rfl).trans (ih _ (t :: passed))

theorem leadsTo_skipValue (c : Cursor) : c.LeadsTo c.skipValue.2 := by
  simp only [skipValue]
  split
  · split
    · exact leadsTo_skipOpen 1 c.passed c.ahead
    · exact .refl c
  · exact .refl c

end Cursor

/-- Assembling goes on from where it begins, by induction on the tokens ahead. -/
theorem Assembly.leadsTo_run (read : NumberReader) (limit : Nat) (a : Assembly)
    (passed ahead : List LocatedToken) :
    Cursor.LeadsTo ⟨passed, ahead⟩ (a.run read limit passed ahead).2 := by
  induction ahead generalizing a passed with
  | nil => exact .refl _
  | cons t ahead ih =>
    have hnext := Cursor.leadsTo_of_advance? (Cursor.advance?_cons passed t ahead)
    rw [run]
    split
    · exact hnext
    · exact hnext
    · next more _ => exact hnext.trans (ih more (t :: passed))

/-! ## Parsers -/

/-- No run of the parser moves the cursor back, or to other tokens. -/
def Parser.Forward {α : Type} (p : Parser α) : Prop :=
  ∀ (s : Settings) (c : Cursor), c.LeadsTo (p.run s c).cursor

theorem mapError_ok {ε ε' α : Type} (f : ε → ε') (a : α) :
    (Except.ok a : Except ε α).mapError f = .ok a := rfl

theorem mapError_error {ε ε' α : Type} (f : ε → ε') (e : ε) :
    (Except.error e : Except ε α).mapError f = .error (f e) := rfl

/-- A function on the value moves no cursor. -/
theorem Parser.run_map {α β : Type} (f : α → β) (p : Parser α) (s : Settings) (c : Cursor) :
    (f <$> p).run s c = ⟨(p.run s c).result.map f, (p.run s c).cursor, (p.run s c).notes⟩ := by
  rw [map_eq_pure_bind, run_bind]
  rcases p.run s c with ⟨_ | a, d, notes⟩
  · rfl
  · simp [Outcome.after, Except.map]

theorem TokenPattern.cursor_check (x : TokenPattern) (c : Cursor) : (x.check c).cursor = c := by
  rw [check]
  split
  · split <;> rfl
  · rfl

theorem TokenPattern.leadsTo_run (x : TokenPattern) (s : Settings) (c : Cursor) :
    c.LeadsTo (x.parser.run s c).cursor := by
  rw [parser]
  dsimp only
  split
  · split
    · next d hd =>
      rw [cursor_check]
      exact Cursor.leadsTo_of_advance? hd
    · exact .refl c
  · rw [cursor_check]
    exact .refl c

/-- A scalar leaves the cursor where its token was checked. -/
theorem Scalar.cursor_run {α : Type} (x : Scalar α) (s : Settings) (c : Cursor) :
    (x.parser.run s c).cursor = (x.token.parser.run s c).cursor := by
  rw [parser]
  dsimp only
  split
  · rfl
  · split <;> rfl

namespace Parser.Forward

variable {α β : Type} {p q : Parser α}

theorem pure (a : α) : (Pure.pure a : Parser α).Forward := fun _ c => .refl c

theorem throw (e : ParseError) : (Parser.throw e : Parser α).Forward := fun _ c => .refl c

theorem ofResult (r : ParseResult α) : (Parser.ofResult r).Forward := fun _ c => .refl c

theorem token (x : TokenPattern) : x.parser.Forward := x.leadsTo_run

theorem scalar (x : Scalar α) : x.parser.Forward := by
  intro s c
  rw [x.cursor_run]
  exact x.token.leadsTo_run s c

theorem bind {next : α → Parser β} (hp : p.Forward)
    (hnext : ∀ a, (∃ s c, (p.run s c).result = .ok a) → (next a).Forward) :
    (p >>= next).Forward := by
  intro s c
  cases h : (p.run s c).result with
  | ok a =>
    rw [run_bind_of_ok h]
    exact (hp s c).trans (hnext a ⟨s, c, h⟩ s (p.run s c).cursor)
  | error e =>
    rw [run_bind_of_error h]
    exact hp s c

theorem map (f : α → β) (hp : p.Forward) : (f <$> p).Forward :=
  bind hp fun a _ => pure (f a)

theorem or (hp : p.Forward) (hq : q.Forward) : (p.or q).Forward := by
  intro s c
  rw [Parser.or]
  dsimp only
  split
  · exact hp s c
  · exact hq s c

theorem optional (hp : p.Forward) : p.optional.Forward := by
  intro s c
  rw [Parser.optional]
  dsimp only
  split
  · exact hp s c
  · exact .refl c

theorem capture (hp : p.Forward) : p.capture.Forward := by
  intro s c
  rw [Parser.capture]
  dsimp only
  split
  · exact hp s c
  · exact .refl c

theorem manyAtMost (hp : p.Forward) (s : Settings) (count : Nat) (c : Cursor) :
    c.LeadsTo (p.manyAtMost s count c).cursor := by
  induction count generalizing c with
  | zero => exact .refl c
  | succ count ih =>
    rw [Parser.manyAtMost]
    dsimp only
    split
    · exact (hp s c).trans (ih _)
    · exact .refl c

theorem many (hp : p.Forward) : p.many.Forward := fun s c => manyAtMost hp s _ c

theorem filter [Shown α] (test : α → Bool) (hp : p.Forward) : (p.filter test).Forward := by
  intro s c
  rw [Parser.filter]
  dsimp only
  split
  · split <;> exact hp s c
  · exact hp s c

theorem withContext (message : String) (hp : p.Forward) : (p.withContext message).Forward :=
  fun s c => hp s c

/-- A parser that is made only when it is run. -/
theorem ofRun {f : Settings → Cursor → Parser α} (hf : ∀ s c, (f s c).Forward) :
    Forward ⟨fun s c => (f s c).run s c⟩ :=
  fun s c => hf s c s c

theorem expectText (x : Scalar String) (expected : List String)
    (fits : Settings → String → Bool) : (Parser.expectText x expected fits).Forward := by
  intro s c
  rw [Parser.expectText]
  dsimp only
  split
  · exact scalar x s c
  · split <;> exact scalar x s c

theorem skipValue : Parser.skipValue.Forward := by
  intro s c
  rw [Parser.skipValue]
  dsimp only
  split
  · exact .refl c
  · next d hd =>
    have hskip := (Cursor.leadsTo_of_advance? hd).trans (Cursor.leadsTo_skipValue d)
    split
    · next heq => rwa [heq] at hskip
    · next heq _ => rwa [heq] at hskip
    · next heq _ => rwa [heq] at hskip

theorem ignoreObject : Parser.ignoreObject.Forward := by
  refine bind (token _) ?_
  intro _ _ s c
  have hskip := Cursor.leadsTo_skipValue c
  dsimp only
  split <;> next heq => rwa [heq] at hskip

theorem value (read : NumberReader) : (Parser.value read).Forward :=
  fun s c => Assembly.leadsTo_run read s.maxDepth (.value .whole) c.passed c.ahead

theorem typed (target : String) (d : Decoder α) (read : NumberReader) :
    (Parser.typed target d read).Forward := by
  intro s c
  have hvalue := value read s c
  rw [Parser.typed]
  dsimp only
  split
  · exact hvalue
  · split
    · exact hvalue
    · exact hvalue
    · exact .refl c

theorem propertyEntry {select : Selector α} (hselect : ∀ name, (select name).Forward) :
    (Parser.propertyEntry select).Forward := by
  refine bind (scalar _) ?_
  intro name _
  refine bind (capture (hselect name)) ?_
  intro result _
  exact pure _

theorem startedObjectUpdater {select : Selector α} (hselect : ∀ name, (select name).Forward) :
    (Parser.startedObjectUpdater select).Forward := by
  refine bind (many (propertyEntry hselect)) ?_
  intro entries _
  refine bind (ofResult _) ?_
  intro updaters _
  refine bind (token _) ?_
  intro _ _
  exact pure _

end Parser.Forward

end JsonReader
