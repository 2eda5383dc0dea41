import JsonReader.Proofs.Token.Recognition

/-!
# The stack of the structure

Some transitions of the structure close a container without a look at the stack, and the comma
takes every stack that has no object on top for that of an array. They are right because the stack
and what may come next fit together in every state that lexemes can lead to. In these states the
stack holds just the containers that the tokens so far have opened and not closed.

Lexemes may be refused on the way. `Structure.accept` yields no state for a lexeme that it refuses,
so the transitions are written once more as changes in place, one after the other, where a refusal
could leave something behind.

## Main definitions

* `openContainers?` are the containers that tokens leave open.
* `Expected.Fits` relates what may come next to the stack, `Structure.WellNested` is the invariant.
* `Structure.acceptInPlace` takes a lexeme and changes the structure in place,
  `Structure.runInPlace` takes several.

## Main statements

* `Structure.WellNested.accept`: one lexeme keeps the invariant.
* `Structure.run_acceptInPlace`: the changes in place are those of `Structure.accept`, and a refused
  lexeme changes nothing.
* `Structure.wellNested_runInPlace`, `Structure.nesting_of_runInPlace`: the invariant holds in every
  state that is reached, and what it says there.
-/

namespace JsonReader

/-! ## Containers that tokens leave open -/

namespace Token

def opened? : Token → Option Container
  | objectStart => some .object
  | arrayStart => some .array
  | _ => none

def closed? : Token → Option Container
  | objectEnd => some .object
  | arrayEnd => some .array
  | _ => none

/-- The open containers behind a token. An end closes the innermost one, which has to be of its own
kind. -/
def containersBehind? (stack : List Container) (t : Token) : Option (List Container) :=
  match t.closed? with
  | some c => if stack.head? = some c then some stack.tail else none
  | none => some (t.opened?.toList ++ stack)

theorem containersBehind?_ofLiteral (stack : List Container) (l : Literal) :
    containersBehind? stack (ofLiteral l) = some stack := by
  cases l <;> rfl

end Token

/-- The containers that the tokens open and do not close, the innermost first. There are none if an
end is not of the kind of the container that it would close. -/
def openContainers? (ts : List Token) : Option (List Container) :=
  ts.foldlM Token.containersBehind? []

theorem openContainers?_append (ts ts' : List Token) :
    openContainers? (ts ++ ts') =
      (openContainers? ts).bind (ts'.foldlM Token.containersBehind? ·) :=
  List.foldlM_append

/-- An end closes a container of its own kind. -/
theorem exists_of_openContainers?_closed {before after : List Token} {t : Token} {c : Container}
    {stack : List Container} (h : openContainers? (before ++ t :: after) = some stack)
    (hc : t.closed? = some c) : ∃ outer, openContainers? before = some (c :: outer) := by
  rw [openContainers?_append, Option.bind_eq_some_iff] at h
  obtain ⟨inner, hbefore, h⟩ := h
  rw [List.foldlM_cons, Option.bind_eq_bind, Option.bind_eq_some_iff] at h
  obtain ⟨_, hbehind, -⟩ := h
  simp only [Token.containersBehind?, hc] at hbehind
  split at hbehind
  · next hhead =>
    obtain ⟨outer, rfl⟩ := List.head?_eq_some_iff.mp hhead
    exact ⟨outer, hbefore⟩
  · simp at hbehind

/-! ## The invariant -/

/-- What may come next fits the open containers. -/
def Expected.Fits (stack : List Container) : Expected → Prop
  | value | commaOrEnd => stack ≠ []
  | valueOrEnd => stack.head? = some .array
  | key | keyOrEnd | colon => stack.head? = some .object
  | done => stack = []

namespace Structure

variable {settings : TokenizerSettings} {ts : List Token} {s s' : Structure} {t : Token}
  {stack : List Container} {e : Expected}

/-- The stack holds the containers that the tokens leave open, not too many of them, and what may
come next fits the stack, except that no container is open at the beginning. -/
structure WellNested (settings : TokenizerSettings) (ts : List Token) (s : Structure) : Prop where
  length_le : s.stack.length ≤ settings.maxDepth
  open_eq : openContainers? ts = some s.stack
  fits : s.expected.Fits s.stack ∨ s = {} ∧ ts = []

theorem wellNested_initial : WellNested settings [] {} :=
  ⟨Nat.zero_le _, rfl, .inr ⟨rfl, rfl⟩⟩

theorem fits_afterValue (stack : List Container) :
    (afterValue stack).expected.Fits (afterValue stack).stack := by
  cases stack with
  | nil => rfl
  | cons c stack => exact List.cons_ne_nil c stack

theorem fits_afterComma (settings : TokenizerSettings) (c : Container) (stack : List Container) :
    (afterComma settings (c :: stack)).Fits (c :: stack) := by
  cases c <;> cases h : settings.allowTrailingCommas <;> simp [afterComma, h, Expected.Fits]

namespace WellNested

theorem fits_of_ne_value (h : WellNested settings ts ⟨stack, e⟩) (he : e ≠ .value) :
    e.Fits stack := by
  rcases h.fits with hfits | ⟨hs, -⟩
  · exact hfits
  · exact absurd (congrArg expected hs) he

theorem emit (h : WellNested settings ts s) (hlength : s'.stack.length ≤ settings.maxDepth)
    (ht : t.containersBehind? s.stack = some s'.stack) (hfits : s'.expected.Fits s'.stack) :
    WellNested settings (ts ++ [t]) s' := by
  refine ⟨hlength, ?_, .inl hfits⟩
  rw [openContainers?_append, h.open_eq, Option.bind_some, List.foldlM_cons, ht]
  rfl

/-- A lexeme that is no token leaves the stack as it is. -/
theorem silent (h : WellNested settings ts ⟨stack, e⟩) {e' : Expected} (hfits : e'.Fits stack) :
    WellNested settings (ts ++ []) ⟨stack, e'⟩ := by
  rw [List.append_nil]
  exact ⟨h.length_le, h.open_eq, .inl hfits⟩

/-- An end closes the container on top, which is of its kind. -/
theorem close (h : WellNested settings ts ⟨stack, e⟩) {c : Container} (hc : t.closed? = some c)
    (hhead : stack.head? = some c) : WellNested settings (ts ++ [t]) (afterValue stack.tail) := by
  refine h.emit ?_ ?_ (fits_afterValue _)
  · have hlength := h.length_le
    simp only [afterValue, List.length_tail] at hlength ⊢
    omega
  · simp [Token.containersBehind?, hc, hhead, afterValue]

theorem acceptLiteral (h : WellNested settings ts s) {l : Literal} {out : Option Token}
    (haccept : s.acceptLiteral l = .ok (out, s')) : WellNested settings (ts ++ out.toList) s' := by
  obtain ⟨stack, e⟩ := s
  have value (he : e = .value ∨ e = .valueOrEnd) : WellNested settings (ts ++ out.toList) s' := by
    obtain ⟨rfl, rfl⟩ := acceptLiteral_of_value he haccept
    exact h.emit h.length_le (Token.containersBehind?_ofLiteral _ _) (fits_afterValue stack)
  have name (he : e = .key ∨ e = .keyOrEnd) (hhead : stack.head? = some .object) :
      WellNested settings (ts ++ out.toList) s' := by
    obtain ⟨name, rfl, rfl, rfl⟩ := acceptLiteral_of_key he haccept
    exact h.emit h.length_le rfl hhead
  cases e with
  | value => exact value (.inl rfl)
  | valueOrEnd => exact value (.inr rfl)
  | key => exact name (.inl rfl) (h.fits_of_ne_value (by decide))
  | keyOrEnd => exact name (.inr rfl) (h.fits_of_ne_value (by decide))
  | colon => exact (acceptLiteral_of_punctuation (.inl rfl) haccept).elim
  | commaOrEnd => exact (acceptLiteral_of_punctuation (.inr (.inl rfl)) haccept).elim
  | done => exact (acceptLiteral_of_punctuation (.inr (.inr rfl)) haccept).elim

theorem acceptDelimiter (h : WellNested settings ts s) {d : Delimiter} {out : Option Token}
    (haccept : s.acceptDelimiter settings d = .ok (out, s')) :
    WellNested settings (ts ++ out.toList) s' := by
  obtain ⟨stack, e⟩ := s
  have value (he : e = .value ∨ e = .valueOrEnd) : WellNested settings (ts ++ out.toList) s' := by
    rcases acceptDelimiter_of_value he haccept with
      ⟨-, hroom, rfl, rfl⟩ | ⟨-, hroom, rfl, rfl⟩ | ⟨-, rfl, rfl, rfl⟩
    · exact h.emit hroom rfl rfl
    · exact h.emit hroom rfl rfl
    · exact h.close rfl (h.fits_of_ne_value (by decide))
  cases e with
  | value => exact value (.inl rfl)
  | valueOrEnd => exact value (.inr rfl)
  | key =>
    obtain ⟨-, he, -⟩ := acceptDelimiter_of_key (.inl rfl) haccept
    cases he
  | keyOrEnd =>
    obtain ⟨-, -, rfl, rfl⟩ := acceptDelimiter_of_key (.inr rfl) haccept
    exact h.close rfl (h.fits_of_ne_value (by decide))
  | colon =>
    obtain ⟨-, rfl, rfl⟩ := acceptDelimiter_of_colon haccept
    obtain ⟨stack, rfl⟩ := List.head?_eq_some_iff.mp (h.fits_of_ne_value (by decide))
    exact h.silent (List.cons_ne_nil _ stack)
  | commaOrEnd =>
    obtain ⟨c, stack, rfl⟩ := List.exists_cons_of_ne_nil (h.fits_of_ne_value (by decide))
    rcases acceptDelimiter_of_commaOrEnd haccept with
      ⟨-, rfl, rfl⟩ | ⟨-, rfl, rfl, rfl⟩ | ⟨-, rfl, rfl, rfl⟩
    · exact h.silent (fits_afterComma settings c stack)
    · exact h.close rfl rfl
    · exact h.close rfl rfl
  | done => exact (acceptDelimiter_of_done haccept).elim

/-- A lexeme that is accepted keeps the invariant. -/
theorem accept (h : WellNested settings ts s) {l : Lexeme} {out : Option Token}
    (haccept : s.accept settings l = .ok (out, s')) :
    WellNested settings (ts ++ out.toList) s' := by
  cases l with
  | literal l => exact h.acceptLiteral haccept
  | delimiter d => exact h.acceptDelimiter haccept
  | _ =>
    cases haccept
    rwa [Option.toList_none, List.append_nil]

end WellNested

/-! ## Changes in place -/

/-- A step that changes a structure in place. What it has changed before a failure stays changed. -/
abbrev InPlace := ExceptT StructureError (StateM Structure)

def setExpected (e : Expected) : InPlace Unit := modify fun s => { s with expected := e }

/-- Puts a container on the stack, unless the limit is reached. -/
def push (settings : TokenizerSettings) (c : Container) : InPlace Unit := do
  let s ← get
  if settings.maxDepth ≤ s.stack.length then throw (.tooDeep settings.maxDepth)
  else set { s with stack := c :: s.stack }

def enterInPlace (settings : TokenizerSettings) (c : Container) (next : Expected) (token : Token) :
    InPlace (Option Token) := do
  push settings c
  setExpected next
  return some token

/-- A value is complete. -/
def settle : InPlace Unit := do
  setExpected (if (← get).stack.isEmpty then .done else .commaOrEnd)

def leaveInPlace (token : Token) : InPlace (Option Token) := do
  modify fun s => { s with stack := s.stack.tail }
  settle
  return some token

def rejectInPlace (found : String) : InPlace (Option Token) := do
  throw (.misplaced (← get).expected found)

def acceptLiteralInPlace (l : Literal) : InPlace (Option Token) := do
  match (← get).expected, l with
  | .keyOrEnd, .string name | .key, .string name =>
    setExpected .colon
    return some (.propertyName name)
  | .value, l | .valueOrEnd, l =>
    settle
    return some (.ofLiteral l)
  | _, l => rejectInPlace (Token.ofLiteral l).text

def acceptDelimiterInPlace (settings : TokenizerSettings) (d : Delimiter) :
    InPlace (Option Token) := do
  let s ← get
  match s.expected, d with
  | .keyOrEnd, .closeBrace => leaveInPlace .objectEnd
  | .colon, .colon =>
    setExpected .value
    return none
  | .valueOrEnd, .closeBracket => leaveInPlace .arrayEnd
  | .value, .openBrace | .valueOrEnd, .openBrace =>
    enterInPlace settings .object .keyOrEnd .objectStart
  | .value, .openBracket | .valueOrEnd, .openBracket =>
    enterInPlace settings .array .valueOrEnd .arrayStart
  | .commaOrEnd, .comma =>
    setExpected (afterComma settings s.stack)
    return none
  | .commaOrEnd, .closeBrace =>
    if s.stack.head? = some .object then leaveInPlace .objectEnd else rejectInPlace d.text
  | .commaOrEnd, .closeBracket =>
    if s.stack.head? = some .array then leaveInPlace .arrayEnd else rejectInPlace d.text
  | _, d => rejectInPlace d.text

/-- Takes one lexeme and yields the token that it is, if any. -/
def acceptInPlace (settings : TokenizerSettings) : Lexeme → InPlace (Option Token)
  | .literal l => acceptLiteralInPlace l
  | .delimiter d => acceptDelimiterInPlace settings d
  | .comment _ | .blank | .newline => return none

/-- Takes lexemes one after the other and yields their tokens. A refused lexeme yields none, and the
next one is taken all the same. -/
def runInPlace (settings : TokenizerSettings) : List Lexeme → StateM Structure (List Token)
  | [] => return []
  | l :: lexemes => do
    let result ← (acceptInPlace settings l).run
    let tokens ← runInPlace settings lexemes
    return result.toOption.join.toList ++ tokens

/-- What a step in place comes to that starts in a state: a failure goes with the state itself. -/
def settled (s : Structure) :
    Except StructureError (Option Token × Structure) →
      Except StructureError (Option Token) × Structure
  | .ok (out, s') => (.ok out, s')
  | .error e => (.error e, s)

theorem run_enterInPlace (settings : TokenizerSettings) (c : Container) (next : Expected)
    (token : Token) (s : Structure) :
    (enterInPlace settings c next token).run.run s = s.settled (s.enter settings c next token) := by
  -- The limit is looked at in the state where the step begins.
  change ((if settings.maxDepth ≤ s.stack.length then throw (.tooDeep settings.maxDepth)
    else set { s with stack := c :: s.stack } : InPlace Unit) >>= fun _ =>
      setExpected next >>= fun _ => Pure.pure (some token)).run.run s = _
  rw [enter]
  split
  · rfl
  · rfl

theorem run_acceptLiteralInPlace (l : Literal) (s : Structure) :
    (acceptLiteralInPlace l).run.run s = s.settled (s.acceptLiteral l) := by
  obtain ⟨stack, e⟩ := s
  cases e <;> cases l <;> rfl

theorem run_acceptDelimiterInPlace (settings : TokenizerSettings) (d : Delimiter) (s : Structure) :
    (acceptDelimiterInPlace settings d).run.run s =
      s.settled (s.acceptDelimiter settings d) := by
  obtain ⟨stack, e⟩ := s
  cases d with
  | openBrace =>
    cases e with
    | value | valueOrEnd => exact run_enterInPlace settings _ _ _ _
    | _ => rfl
  | openBracket =>
    cases e with
    | value | valueOrEnd => exact run_enterInPlace settings _ _ _ _
    | _ => rfl
  | closeBrace =>
    cases e with
    | commaOrEnd => rcases stack with _ | ⟨_ | _, stack⟩ <;> rfl
    | _ => rfl
  | closeBracket =>
    cases e with
    | commaOrEnd => rcases stack with _ | ⟨_ | _, stack⟩ <;> rfl
    | _ => rfl
  | _ => cases e <;> rfl

/-- The changes in place are those of `accept`, and a refused lexeme changes nothing. -/
theorem run_acceptInPlace (settings : TokenizerSettings) (l : Lexeme) (s : Structure) :
    (acceptInPlace settings l).run.run s = s.settled (s.accept settings l) := by
  cases l with
  | literal l => exact run_acceptLiteralInPlace l s
  | delimiter d => exact run_acceptDelimiterInPlace settings d s
  | _ => rfl

/-! ## Every state that is reached -/

/-- Lexemes keep the invariant, refused ones among them. By induction on the lexemes. -/
theorem wellNested_runInPlace (h : WellNested settings ts s) (lexemes : List Lexeme) :
    WellNested settings (ts ++ ((runInPlace settings lexemes).run s).1)
      ((runInPlace settings lexemes).run s).2 := by
  induction lexemes generalizing ts s with
  | nil =>
    change WellNested settings (ts ++ []) s
    rwa [List.append_nil]
  | cons l lexemes ih =>
    have hnext : WellNested settings
        (ts ++ ((s.settled (s.accept settings l)).1).toOption.join.toList)
        (s.settled (s.accept settings l)).2 := by
      cases haccept : s.accept settings l with
      | ok found => exact h.accept haccept
      | error e => rwa [← List.append_nil ts] at h
    rw [← run_acceptInPlace] at hnext
    have hrest := ih hnext
    rwa [List.append_assoc] at hrest

/-- In every state that lexemes lead to from the initial one, whichever of them are refused, what
may come next fits the stack, and the stack holds the containers that the tokens leave open. The
changes in place are those of `accept`, and a refused lexeme changes nothing. -/
theorem nesting_of_runInPlace (settings : TokenizerSettings) (lexemes : List Lexeme) :
    ∃ ts s, (runInPlace settings lexemes).run {} = (ts, s) ∧
      s.stack.length ≤ settings.maxDepth ∧
      (s.expected = .done → s.stack = []) ∧
      (s.stack = [] → s.expected = .done ∨ s = {} ∧ ts = []) ∧
      (s.expected = .keyOrEnd ∨ s.expected = .key ∨ s.expected = .colon →
        s.stack.head? = some .object) ∧
      (s.expected = .valueOrEnd → s.stack.head? = some .array) ∧
      (s.expected = .commaOrEnd → s.stack ≠ []) ∧
      openContainers? ts = some s.stack ∧
      (∀ before t after c, ts = before ++ t :: after → t.closed? = some c →
        ∃ outer, openContainers? before = some (c :: outer)) ∧
      (∀ l, (acceptInPlace settings l).run.run s = s.settled (s.accept settings l)) ∧
      ∀ l e s', (acceptInPlace settings l).run.run s = (.error e, s') → s' = s := by
  obtain ⟨⟨ts, ⟨stack, e⟩⟩, hrun⟩ : ∃ r, (runInPlace settings lexemes).run {} = r := ⟨_, rfl⟩
  have h : WellNested settings ts ⟨stack, e⟩ := by
    have hinitial : WellNested settings [] {} := wellNested_initial
    have hreached := wellNested_runInPlace hinitial lexemes
    rwa [hrun] at hreached
  refine ⟨ts, ⟨stack, e⟩, hrun, h.length_le, ?_, ?_, ?_, ?_, ?_, h.open_eq, ?_,
    fun l => run_acceptInPlace settings l _, ?_⟩
  · rintro rfl
    exact h.fits_of_ne_value (by decide)
  · rintro rfl
    rcases h.fits with hfits | hinitial
    · cases e with
      | done => exact .inl rfl
      | _ => simp [Expected.Fits] at hfits
    · exact .inr hinitial
  · rintro (rfl | rfl | rfl) <;> exact h.fits_of_ne_value (by decide)
  · rintro rfl
    exact h.fits_of_ne_value (by decide)
  · rintro rfl
    exact h.fits_of_ne_value (by decide)
  · rintro before t after c rfl hc
    exact exists_of_openContainers?_closed h.open_eq hc
  · intro l e' s' hl
    rw [run_acceptInPlace] at hl
    cases haccept : accept settings ⟨stack, e⟩ l with
    | ok found =>
      rw [haccept] at hl
      cases hl
    | error e'' =>
      rw [haccept] at hl
      cases hl
      rfl

/-- A brace that is refused in an array leaves the array open. -/
example : (runInPlace {} [.delimiter .openBracket, .delimiter .closeBrace]).run {} =
    ([.arrayStart], ⟨[.array], .valueOrEnd⟩) := rfl

end Structure

end JsonReader
